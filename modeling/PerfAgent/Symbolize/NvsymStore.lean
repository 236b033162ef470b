import PerfAgent.Debuginfod.Paths
import PerfAgent.Lib.Machine
import PerfAgent.Pprof.Frames

/-!
# The store of symbol files

`symbolize/nvsym/store.go`.  The calls for one build-id share its entries in the three tables of the store, and
the file in the cache; each takes one step at a time.  How a download ends is up to the environment, and
what it counts is left out.
-/

universe u

namespace PerfAgent.Nvsym

open Function

open Debuginfod (Name Path)
open Pprof (ascii hasPrefix pathBase)

/-- `IsNVIDIAModule`. -/
def isNVIDIAModule (modulePath : Name) : Bool :=
  ["libcuda", "libcudart", "libcupti", "libcublas", "libcudnn", "libcufft", "libcurand", "libcusparse",
    "libcusolver", "libnccl", "libnvrtc", "libnvjitlink", "libnvidia", "libnvperf"].any
      fun p => hasPrefix (pathBase modulePath) (ascii p)

/-- The path below `Dir`; the source mirrors the cache of debuginfod. -/
def pathFor (buildID : Name) : Option Path := Debuginfod.pathFor ⟨buildID, .debuginfo⟩

inductive FetchError where
  | notFound
  | /-- The context has ended. -/ ctxErr
  | failed
deriving DecidableEq

/-- What `Path` returns. -/
inductive Result where
  | found (path : Path)
  | error (err : FetchError)
deriving DecidableEq

inductive CallAt (C : Type u) where
  | idle
  | /-- In `Cached`. -/ cachedStat (modulePath : Name)
  | /-- In `prefetch`. -/ prefetchNegative (modulePath : Name)
  | prefetchStart (modulePath : Name)
  | /-- In `Path`, or in the goroutine of `prefetch`. -/ stat
  | negativeCheck
  | loadOrStore
  | /-- For what another call receives. -/ waiting (leader : C)
  | /-- Out of the channel, and not put back. -/ took (leader : C) (r : Result)
  | downloading
  | downloaded (r : Result)
  | publishing (r : Result)
  | removing (r : Result)
  | returned (r : Result)
  | served (leader : C) (r : Result)
  | gaveUp (leader : C)
  | /-- `Cached` or `prefetch`, with nothing more to do. -/ quit
deriving DecidableEq

inductive Func where
  | path (modulePath : Name)
  | cached (modulePath : Name)
  | prefetch (modulePath : Name)

/-- The store, as far as it is about one build-id, and the calls for this one. -/
structure Store (C : Type u) where
  dir : Name
  /-- There is a file at `dst`. -/
  onDisk : Bool
  negative : Bool := false
  prefetching : Bool := false
  /-- The call whose channel is in the table. -/
  inflight : Option C := none
  /-- What is in the channel that a call has made. -/
  channel : C → Option Result := fun _ => none
  hits : Nat := 0
  calls : C → CallAt C := fun _ => .idle
  ctxDone : C → Bool := fun _ => false
  /-- The calls of `download`, the last one first.  No step reads it. -/
  started : List C := []
  /-- Those that have returned, the last one first.  No step reads it. -/
  finished : List (C × Result) := []

inductive Action (C : Type u) where
  | call (c : C) (f : Func)
  | ctxEnd (c : C)
  | /-- The next step of a call, where there is one only. -/ go (c : C)
  | download (c : C) (err : Option FetchError)
  | receive (c : C)
  | giveUp (c : C)

namespace Store

variable {C : Type u} [DecidableEq C] (buildID : Name)

/-- `Path`, up to its first look at anything that is shared. -/
def enterPath (s : Store C) (modulePath : Name) : CallAt C :=
  if s.dir = [] then .returned (.error .notFound)
  else if isNVIDIAModule modulePath = false then .returned (.error .notFound)
  else
    match pathFor buildID with
    | none => .returned (.error .notFound)
    | some _ => .stat

def enterCached (s : Store C) (modulePath : Name) : CallAt C :=
  if s.dir = [] ∨ isNVIDIAModule modulePath = false then .quit
  else
    match pathFor buildID with
    | none => .quit
    | some _ => .cachedStat modulePath

def enter (s : Store C) : Func → CallAt C
  | .path modulePath => s.enterPath buildID modulePath
  | .cached modulePath => s.enterCached buildID modulePath
  | .prefetch modulePath => .prefetchNegative modulePath

def setCall (s : Store C) (c : C) (p : CallAt C) : Store C := { s with calls := update s.calls c p }

def dst : Path := (pathFor buildID).getD []

def go (s : Store C) (c : C) : Option (Store C) :=
  match s.calls c with
  | .cachedStat modulePath =>
    some (if s.onDisk then { s.setCall c .quit with hits := s.hits + 1 } else s.setCall c (.prefetchNegative modulePath))
  | .prefetchNegative modulePath => some (s.setCall c (if s.negative then .quit else .prefetchStart modulePath))
  | .prefetchStart modulePath =>
    some (if s.prefetching then s.setCall c .quit
      else { s.setCall c (s.enterPath buildID modulePath) with prefetching := true })
  | .stat =>
    some (if s.onDisk then { s.setCall c (.returned (.found (dst buildID))) with hits := s.hits + 1 }
      else s.setCall c .negativeCheck)
  | .negativeCheck => some (s.setCall c (if s.negative then .returned (.error .notFound) else .loadOrStore))
  | .loadOrStore =>
    match s.inflight with
    | some leader => some (s.setCall c (.waiting leader))
    | none => some { s.setCall c .downloading with inflight := some c, started := c :: s.started }
  | .took leader r =>
    -- put it back for any other waiter
    if s.channel leader = none then
      some { s.setCall c (.served leader r) with channel := update s.channel leader (some r) }
    else none
  | .downloaded r =>
    some { s.setCall c (.publishing r) with negative := s.negative || decide (r = .error .notFound) }
  | .publishing r =>
    if s.channel c = none then
      some { s.setCall c (.removing r) with channel := update s.channel c (some r) }
    else none
  | .removing r => some { s.setCall c (.returned r) with inflight := none }
  | _ => none

/-- What `download` returns. -/
def downloadResult : Option FetchError → Result
  | none => .found (dst buildID)
  | some err => .error err

def step (s : Store C) : Action C → Option (Store C)
  | .call c f => if s.calls c = .idle then some (s.setCall c (s.enter buildID f)) else none
  | .ctxEnd c => some { s with ctxDone := update s.ctxDone c true }
  | .go c => s.go buildID c
  | .download c err =>
    if s.calls c = .downloading ∧ (err = some .ctxErr → s.ctxDone c = true) then
      let r := downloadResult buildID err
      some
        { s.setCall c (.downloaded r) with
          onDisk := s.onDisk || decide (err = none)
          finished := (c, r) :: s.finished }
    else none
  | .receive c =>
    match s.calls c with
    | .waiting leader =>
      match s.channel leader with
      | some r => some { s.setCall c (.took leader r) with channel := update s.channel leader none }
      | none => none
    | _ => none
  | .giveUp c =>
    match s.calls c with
    | .waiting leader => if s.ctxDone c then some (s.setCall c (.gaveUp leader)) else none
    | _ => none

/-! ## What a step does -/

end Store

/-- Neither a leader nor a waiter, and not past the look at the file either. -/
def CallAt.Early {C : Type u} : CallAt C → Prop
  | .idle | .cachedStat _ | .prefetchNegative _ | .prefetchStart _ | .stat => True
  | _ => False

def CallAt.Missed {C : Type u} : CallAt C → Prop
  | .negativeCheck | .loadOrStore => True
  | _ => False

def CallAt.Settled {C : Type u} : CallAt C → Prop
  | .quit | .returned (.found _) | .returned (.error .notFound) => True
  | _ => False

namespace Store

variable {C : Type u} [DecidableEq C] {buildID : Name}

inductive Moves (buildID : Name) (s : Store C) : Action C → Store C → Prop
  | early {a : Action C} {c : C} {p : CallAt C} (hits : Nat) (prefetching : Bool) (hfrom : (s.calls c).Early)
      (hto : p.Early ∨ p.Settled) : Moves buildID s a { s.setCall c p with hits := hits, prefetching := prefetching }
  | missed {c : C} (hfrom : s.calls c = .stat) (hmiss : s.onDisk = false) :
      Moves buildID s (.go c) (s.setCall c .negativeCheck)
  | looked {c : C} {p : CallAt C} (hfrom : s.calls c = .negativeCheck) (hto : p = .loadOrStore ∨ p.Settled) :
      Moves buildID s (.go c) (s.setCall c p)
  | ctxEnd (c : C) : Moves buildID s (.ctxEnd c) { s with ctxDone := update s.ctxDone c true }
  | wait {c leader : C} (hfrom : s.calls c = .loadOrStore) (hinflight : s.inflight = some leader) :
      Moves buildID s (.go c) (s.setCall c (.waiting leader))
  | lead {c : C} (hfrom : s.calls c = .loadOrStore) (hinflight : s.inflight = none) :
      Moves buildID s (.go c) { s.setCall c .downloading with inflight := some c, started := c :: s.started }
  | download {c : C} (err : Option FetchError) (hfrom : s.calls c = .downloading)
      (hctx : err = some .ctxErr → s.ctxDone c = true) :
      Moves buildID s (.download c err)
        { s.setCall c (.downloaded (downloadResult buildID err)) with
          onDisk := s.onDisk || decide (err = none)
          finished := (c, downloadResult buildID err) :: s.finished }
  | store {c : C} {r : Result} (hfrom : s.calls c = .downloaded r) :
      Moves buildID s (.go c)
        { s.setCall c (.publishing r) with negative := s.negative || decide (r = .error .notFound) }
  | publish {c : C} {r : Result} (hfrom : s.calls c = .publishing r) (hempty : s.channel c = none) :
      Moves buildID s (.go c) { s.setCall c (.removing r) with channel := update s.channel c (some r) }
  | remove {c : C} {r : Result} (hfrom : s.calls c = .removing r) :
      Moves buildID s (.go c) { s.setCall c (.returned r) with inflight := none }
  | take {c leader : C} {r : Result} (hfrom : s.calls c = .waiting leader) (hfull : s.channel leader = some r) :
      Moves buildID s (.receive c) { s.setCall c (.took leader r) with channel := update s.channel leader none }
  | putBack {c leader : C} {r : Result} (hfrom : s.calls c = .took leader r) (hempty : s.channel leader = none) :
      Moves buildID s (.go c) { s.setCall c (.served leader r) with channel := update s.channel leader (some r) }
  | giveUp {c leader : C} (hfrom : s.calls c = .waiting leader) (hctx : s.ctxDone c = true) :
      Moves buildID s (.giveUp c) (s.setCall c (.gaveUp leader))

omit [DecidableEq C] in
theorem enterPath_early (s : Store C) (modulePath : Name) :
    (s.enterPath buildID modulePath).Early ∨ (s.enterPath buildID modulePath).Settled := by
  unfold enterPath
  split
  · exact .inr trivial
  · split
    · exact .inr trivial
    · cases pathFor buildID with
      | none => exact .inr trivial
      | some _ => exact .inl trivial

omit [DecidableEq C] in
theorem enter_early (s : Store C) (f : Func) : (s.enter buildID f).Early ∨ (s.enter buildID f).Settled := by
  cases f with
  | path modulePath => exact s.enterPath_early modulePath
  | cached modulePath =>
    show (s.enterCached buildID modulePath).Early ∨ (s.enterCached buildID modulePath).Settled
    unfold enterCached
    split
    · exact .inr trivial
    · cases pathFor buildID with
      | none => exact .inr trivial
      | some _ => exact .inl trivial
  | prefetch modulePath => exact .inl trivial

theorem moves_of_go {s s' : Store C} {c : C} (h : s.go buildID c = some s') : Moves buildID s (.go c) s' := by
  unfold go at h
  split at h
  next modulePath hfrom =>
    have hearly : (s.calls c).Early := hfrom ▸ trivial
    cases h
    split
    · exact .early (p := .quit) (s.hits + 1) s.prefetching hearly (.inr trivial)
    · exact .early (p := .prefetchNegative modulePath) s.hits s.prefetching hearly (.inl trivial)
  next modulePath hfrom =>
    have hearly : (s.calls c).Early := hfrom ▸ trivial
    cases h
    refine .early s.hits s.prefetching hearly ?_
    split
    · exact .inr trivial
    · exact .inl trivial
  next modulePath hfrom =>
    have hearly : (s.calls c).Early := hfrom ▸ trivial
    cases h
    split
    · exact .early (p := .quit) s.hits s.prefetching hearly (.inr trivial)
    · exact .early s.hits true hearly (s.enterPath_early modulePath)
  next hfrom =>
    cases h
    split
    · exact .early (s.hits + 1) s.prefetching (hfrom ▸ trivial) (.inr trivial)
    · next hmiss => exact .missed hfrom (Bool.eq_false_iff.mpr hmiss)
  next hfrom =>
    cases h
    refine .looked hfrom ?_
    split
    · exact .inr trivial
    · exact .inl rfl
  next hfrom =>
    split at h
    · next leader hinflight =>
      cases h
      exact .wait hfrom hinflight
    · next hinflight =>
      cases h
      exact .lead hfrom hinflight
  next leader r hfrom =>
    split at h
    · next hempty =>
      cases h
      exact .putBack hfrom hempty
    · cases h
  next r hfrom =>
    cases h
    exact .store hfrom
  next r hfrom =>
    split at h
    · next hempty =>
      cases h
      exact .publish hfrom hempty
    · cases h
  next r hfrom =>
    cases h
    exact .remove hfrom
  · cases h

theorem moves_of_step {s s' : Store C} {a : Action C} (h : s.step buildID a = some s') : Moves buildID s a s' := by
  cases a with
  | call c f =>
    unfold step at h
    dsimp only at h
    split at h
    · next hidle =>
      cases h
      exact .early s.hits s.prefetching (hidle ▸ trivial) (s.enter_early f)
    · cases h
  | ctxEnd c =>
    cases h
    exact .ctxEnd c
  | go c => exact moves_of_go h
  | download c err =>
    unfold step at h
    dsimp only at h
    split at h
    · next hfrom =>
      cases h
      exact .download err hfrom.1 hfrom.2
    · cases h
  | receive c =>
    unfold step at h
    dsimp only at h
    split at h
    · next leader hfrom =>
      split at h
      · next r hfull =>
        cases h
        exact .take hfrom hfull
      · cases h
    · cases h
  | giveUp c =>
    unfold step at h
    dsimp only at h
    split at h
    · next leader hfrom =>
      split at h
      · next hctx =>
        cases h
        exact .giveUp hfrom hctx
      · cases h
    · cases h

end Store

end PerfAgent.Nvsym
