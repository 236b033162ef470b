import PerfAgent.Lib.Machine

/-!
# The call guard

The lock around every vendor call of the adapter (`shim/core/callguard.h`, taken through the
scopes of `shim/nvidia/cupti_guard.h`): it may be entered again by the thread that has it, and
`try_enter_uncontended` gets it only where nobody has it, the calling thread included.

Each access to the owner word, the mutex, the depth and a counter is a step of its own.  A
thread is identified by the address of a thread-local object, which no other thread has; the
owner word is that address, or zero.  The mutex may fail a `try_lock` although it is free, and
a thread that tries or locks a mutex it has, or unlocks one it has not, is given no step.  The
depth is a 32-bit word.

`nesting` counts the enters a thread has not left yet.  No step of the guard reads it.
-/

namespace PerfAgent.Shim

variable {Tid : Type} [DecidableEq Tid]

/-- The guard; `mu` is the thread that has locked the mutex. -/
structure CallGuard (Tid : Type) where
  mu : Option Tid := none
  owner : Option Tid := none
  depth : UInt32 := 0
  maxDepth : UInt32 := 0
  entries : Nat := 0
  reentries : Nat := 0
  waits : Nat := 0
  tryFailedSelf : Nat := 0
  tryFailedOther : Nat := 0
deriving DecidableEq

inductive GuardStage where
  | idle
  | enterLoad | enterDepth | enterReentry | enterDeepest
  | enterTryLock | enterWait | enterLock
  | enterOwner | enterSetDepth | enterMaxDepth | enterEntry
  | leaveDepth | leaveSetDepth | leaveOwner | leaveUnlock
  | tryLoad | tryFailSelf | tryTryLock | tryFailOther
  | tryOwner | trySetDepth | tryEntry
deriving DecidableEq

/-- Whether the thread is in `try_enter_uncontended`. -/
def GuardStage.isTry : GuardStage → Bool
  | .tryLoad | .tryFailSelf | .tryTryLock | .tryFailOther | .tryOwner | .trySetDepth
  | .tryEntry => true
  | _ => false

/-- Whether its `try_enter_uncontended` will succeed. -/
def GuardStage.tryHolds : GuardStage → Bool
  | .tryOwner | .trySetDepth | .tryEntry => true
  | _ => false

inductive CallEnd where
  | underWay
  | entered
  | refused
  | left
deriving DecidableEq

namespace CallGuard

/-- `held_by_this_thread`. -/
def heldByThisThread (g : CallGuard Tid) (self : Tid) : Bool := g.owner == some self

/-- `mu_.try_lock()`, with the stages after it. -/
def tryLock (g : CallGuard Tid) (self : Tid) (spurious : Bool) (held failed : GuardStage) :
    Option (CallGuard Tid × GuardStage × CallEnd) :=
  if g.mu = some self then none
  else if g.mu.isNone && !spurious then some ({ g with mu := some self }, held, .underWay)
  else some (g, failed, .underWay)

/-- The next step of a thread that is in one of the three functions. -/
def advance (g : CallGuard Tid) (self : Tid) (spurious : Bool) :
    GuardStage → Option (CallGuard Tid × GuardStage × CallEnd)
  | .idle => none
  -- enter
  | .enterLoad =>
    some (g, if g.owner = some self then .enterDepth else .enterTryLock, .underWay)
  | .enterDepth => some ({ g with depth := g.depth + 1 }, .enterReentry, .underWay)
  | .enterReentry => some ({ g with reentries := g.reentries + 1 }, .enterDeepest, .underWay)
  | .enterDeepest =>
    some (if g.depth > g.maxDepth then { g with maxDepth := g.depth } else g, .idle, .entered)
  | .enterTryLock => g.tryLock self spurious .enterOwner .enterWait
  | .enterWait => some ({ g with waits := g.waits + 1 }, .enterLock, .underWay)
  | .enterLock =>
    if g.mu = none then some ({ g with mu := some self }, .enterOwner, .underWay) else none
  | .enterOwner => some ({ g with owner := some self }, .enterSetDepth, .underWay)
  | .enterSetDepth => some ({ g with depth := 1 }, .enterMaxDepth, .underWay)
  | .enterMaxDepth =>
    some (if g.maxDepth < 1 then { g with maxDepth := 1 } else g, .enterEntry, .underWay)
  | .enterEntry => some ({ g with entries := g.entries + 1 }, .idle, .entered)
  -- leave
  | .leaveDepth =>
    if g.depth > 1 then some ({ g with depth := g.depth - 1 }, .idle, .left)
    else some (g, .leaveSetDepth, .underWay)
  | .leaveSetDepth => some ({ g with depth := 0 }, .leaveOwner, .underWay)
  | .leaveOwner => some ({ g with owner := none }, .leaveUnlock, .underWay)
  | .leaveUnlock =>
    if g.mu = some self then some ({ g with mu := none }, .idle, .left) else none
  -- try_enter_uncontended
  | .tryLoad => some (g, if g.owner = some self then .tryFailSelf else .tryTryLock, .underWay)
  | .tryFailSelf => some ({ g with tryFailedSelf := g.tryFailedSelf + 1 }, .idle, .refused)
  | .tryTryLock => g.tryLock self spurious .tryOwner .tryFailOther
  | .tryFailOther => some ({ g with tryFailedOther := g.tryFailedOther + 1 }, .idle, .refused)
  | .tryOwner => some ({ g with owner := some self }, .trySetDepth, .underWay)
  | .trySetDepth => some ({ g with depth := 1 }, .tryEntry, .underWay)
  | .tryEntry => some ({ g with entries := g.entries + 1 }, .idle, .entered)

end CallGuard

/-- The guard and the threads that call it; `succeeded` counts the enters and the tries that
have returned with the guard. -/
structure GuardSystem (Tid : Type) where
  guard : CallGuard Tid := {}
  stage : Tid → GuardStage := fun _ => .idle
  nesting : Tid → Nat := fun _ => 0
  succeeded : Nat := 0

namespace GuardSystem

/-- A thread calls one of the functions, or takes its next step in it. -/
inductive Action (Tid : Type) where
  | enter (t : Tid)
  | leave (t : Tid)
  | tryEnter (t : Tid)
  | advance (t : Tid) (spurious : Bool)

def start (s : GuardSystem Tid) (t : Tid) (stage : GuardStage) : GuardSystem Tid :=
  { s with stage := Function.update s.stage t stage }

@[simp] theorem stage_start (s : GuardSystem Tid) (t : Tid) (stage : GuardStage) :
    (s.start t stage).stage t = stage := Function.update_self ..

/-- What the end of a call changes of the count of a thread's enters. -/
def nestingAfter (n : Nat) : CallEnd → Nat
  | .entered => n + 1
  | .left => n - 1
  | .underWay | .refused => n

def step (s : GuardSystem Tid) : Action Tid → Option (GuardSystem Tid)
  | .enter t => if s.stage t = .idle then some (s.start t .enterLoad) else none
  | .leave t =>
    if s.stage t = .idle ∧ 0 < s.nesting t then some (s.start t .leaveDepth) else none
  | .tryEnter t => if s.stage t = .idle then some (s.start t .tryLoad) else none
  | .advance t spurious =>
    (s.guard.advance t spurious (s.stage t)).map fun (guard, stage, ended) =>
      { guard := guard
        stage := Function.update s.stage t stage
        nesting := Function.update s.nesting t (nestingAfter (s.nesting t) ended)
        succeeded := s.succeeded + (ended == .entered).toNat }

def Reaches (as : List (Action Tid)) (s : GuardSystem Tid) : Prop :=
  Run (fun s a s' => step s a = some s') {} as s

end GuardSystem

end PerfAgent.Shim
