import PerfAgent.Bpf.SampleRecord
import PerfAgent.Unwind.Tables

/-!
# The native walk

`bpf/unwind_common.h`: one frame at a time, by the unwind tables where they have a row for the
address and by the frame pointer where they have none.  A frame that an interpreter claims
interrupts the walk: a tail call replaces the running program by the module of the interpreter,
which comes back through two programs more, one that unwinds past the claimed frame and one that
goes on with the loop.  What is walked is in the maps that these programs share.

The counters and the miss events are kept as logs; the rate limit of the latter, which depends on
the clock, is left out.
-/

namespace PerfAgent.Bpf

open Unwind (Tables PIDMapping CFIEntry)

/-! ## Flags -/

def walkerFlagFPTerminated : UInt16 := 0x01
def walkerFlagDwarfUsed : UInt16 := 0x02
def walkerFlagCFIMiss : UInt16 := 0x04
def walkerFlagRAUndefined : UInt16 := 0x08
def walkerFlagFPExhausted : UInt16 := 0x10
def walkerFlagFPNonmonotonic : UInt16 := 0x20
def walkerFlagRootDisagreement : UInt16 := 0x40
def walkerFlagRAZero : UInt16 := 0x100

/-! ## What a walk reads and writes -/

def unwinderNative : UInt32 := 0

def handoffMaxRanges : Nat := 3

/-- `struct handoff_range`; a span is `lo` and `hi`. -/
structure HandoffRange where
  spans : Vector (UInt64 × UInt64) handoffMaxRanges
  unwinderId : UInt32
deriving DecidableEq

structure WalkEnv where
  /-- `bpf_probe_read_user` of eight bytes. -/
  memory : UInt64 → Option UInt64
  tables : Tables
  handoffRanges : AssocMap UInt64 HandoffRange
  interpEnabled : Bool

inductive InterpStat where
  | rangeHit
  | inRange
  | claimed
  | dispatched
  | tailcallFailed
  | budget
  | resumed
deriving DecidableEq

structure CFIMiss where
  pid : UInt32
  tableId : UInt64
  relPc : UInt64
deriving DecidableEq

/-- The maps that the programs of a walk share: the record, what was counted and what was missed. -/
structure WalkMaps where
  record : SampleRecord
  counted : List InterpStat := []
  misses : List CFIMiss := []
deriving DecidableEq

def WalkMaps.count (m : WalkMaps) (stats : List InterpStat) : WalkMaps :=
  { m with counted := m.counted ++ stats }

/-- `struct walk_ctx`. -/
structure WalkCtx where
  pc : UInt64
  fp : UInt64
  sp : UInt64
  pid : UInt32
  nPcs : Nat
  maps : WalkMaps
  pendingUnwinder : UInt32
  interpDone : UInt32
deriving DecidableEq

/-! ## Lookups -/

def maxPidMappings : Nat := 256

/-- The loop of `mapping_for_pc`, with the turns that are left: the table and the address in it. -/
def mappingScan (inner : List PIDMapping) (len : Nat) (pc : UInt64) : Nat → Nat → Option (UInt64 × UInt64)
  | 0, _ => none
  | turns + 1, idx =>
    if idx ≥ len then none
    else
      match inner[idx]? with
      | none => none
      | some m =>
        if pc ≥ m.vmaStart ∧ pc < m.vmaEnd then some (m.tableID, pc - m.loadBias)
        else mappingScan inner len pc turns (idx + 1)

def mappingForPc (t : Tables) (pid : UInt32) (pc : UInt64) : Option (UInt64 × UInt64) :=
  match t.pidMappings.find? pid with
  | none => none
  | some inner =>
    match t.pidMappingLengths.find? pid with
    | none => none
    | some len =>
      if len = 0 then none
      else mappingScan inner (min len.toNat maxPidMappings) pc maxPidMappings 0

/-- `next_unwinder`, with what it counts. -/
def nextUnwinder (ranges : AssocMap UInt64 HandoffRange) (tableId relPc : UInt64) (done : UInt32) :
    List InterpStat × UInt32 :=
  match ranges.find? tableId with
  | none => ([], unwinderNative)
  | some h =>
    if h.spans.toList.any fun span => relPc ≥ span.1 ∧ relPc < span.2 then
      if done &&& (1 <<< (h.unwinderId &&& 31)) ≠ 0 then ([.rangeHit, .inRange], unwinderNative)
      else ([.rangeHit, .inRange], h.unwinderId)
    else ([.rangeHit], unwinderNative)

variable (env : WalkEnv)

/-! ## One frame -/

namespace WalkCtx

/-- `walker_flags |= bits`. -/
def flag (w : WalkCtx) (bits : UInt16) : WalkCtx :=
  { w with maps := { w.maps with record := w.maps.record.flag bits } }

/-- `frame_push_native`. -/
def framePushNative (w : WalkCtx) (pc : UInt64) : WalkCtx × Bool :=
  let r := w.maps.record.recordPushNative w.nPcs pc
  ({ w with maps := { w.maps with record := r.1 }, nPcs := r.2.1 }, r.2.2)

def fpChainEnded (w : WalkCtx) : Bool := w.maps.record.walkerFlags &&& walkerFlagFPTerminated ≠ 0

/-- The caller is found: its registers, and whether the walk stops. -/
def advance (w : WalkCtx) (pc fp sp : UInt64) : WalkCtx × Bool :=
  ({ w with pc := pc, fp := fp, sp := sp }, false)

def offset (base : UInt64) (off : Int32) : UInt64 := base + off.toInt64.toUInt64

def callerFp (w : WalkCtx) (e : CFIEntry) (cfa : UInt64) : Option UInt64 :=
  match e.fpType with
  | .offsetCFA => env.memory (offset cfa e.fpOffset)
  | .sameValue => some w.fp
  | _ => some 0

/-- The part of `unwind_frame` for an address that has a row. -/
def unwindByRow (w : WalkCtx) (e : CFIEntry) : WalkCtx × Bool :=
  let base := if e.cfaType = .fp then w.fp else w.sp
  let cfa := offset base e.cfaOffset
  match e.raType with
  | .offsetCFA =>
    if w.fpChainEnded then (w.flag walkerFlagRootDisagreement, true)
    else
      match env.memory (offset cfa e.raOffset) with
      | none => (w, true)
      | some retAddr =>
        if retAddr = 0 then (w.flag walkerFlagRAZero, true)
        else
          match w.callerFp env e cfa with
          | none => (w, true)
          | some newFp => (w.flag walkerFlagDwarfUsed).advance retAddr newFp cfa
  | .undefined => (w.flag walkerFlagRAUndefined, true)
  | _ => (w, true)

/-- The part of `unwind_frame` for an address without a row. -/
def unwindByFp (w : WalkCtx) : WalkCtx × Bool :=
  if w.fp = 0 then
    if w.fpChainEnded then (w, true) else (w.flag walkerFlagFPExhausted, true)
  else
    match env.memory w.fp with
    | none => (w, true)
    | some savedFp =>
      match env.memory (w.fp + 8) with
      | none => (w, true)
      | some retAddr =>
        if savedFp ≤ w.fp then
          if savedFp = 0 then
            let w := w.flag walkerFlagFPTerminated
            if retAddr = 0 then (w, true) else w.advance retAddr 0 (w.fp + 16)
          else
            let w := w.flag walkerFlagFPNonmonotonic
            (if retAddr ≠ 0 then (w.framePushNative retAddr).1 else w, true)
        else w.advance retAddr savedFp (w.fp + 16)

def unwindMapped (w : WalkCtx) (tableId relPc : UInt64) : WalkCtx × Bool :=
  let haveTables := env.tables.cfiLengths.find? tableId ≠ none
  let miss : CFIMiss := { pid := w.pid, tableId := tableId, relPc := relPc }
  let w := if haveTables then w else { w with maps := { w.maps with misses := w.maps.misses ++ [miss] } }
  match env.tables.cfiLookup tableId relPc with
  | some e => w.unwindByRow env e
  | none => (if haveTables then w.flag walkerFlagCFIMiss else w).unwindByFp env

/-- `unwind_frame` after the push. -/
def unwindPushed (lead : Bool) (w : WalkCtx) : WalkCtx × Bool :=
  match mappingForPc env.tables w.pid w.pc with
  | none => w.unwindByFp env
  | some (tableId, relPc) =>
    if env.interpEnabled && lead then
      let u := nextUnwinder env.handoffRanges tableId relPc w.interpDone
      let w := { w with maps := w.maps.count u.1 }
      if u.2 ≠ unwinderNative then
        ({ w with maps := w.maps.count [.claimed], pendingUnwinder := u.2 }, true)
      else w.unwindMapped env tableId relPc
    else w.unwindMapped env tableId relPc

/-- `unwind_frame`: the walk after the frame, and whether it stops there. -/
def unwindFrame (lead : Bool) (w : WalkCtx) : WalkCtx × Bool :=
  if lead then
    let r := w.framePushNative w.pc
    if r.2 then r else r.1.unwindPushed env lead
  else w.unwindPushed env lead

end WalkCtx

/-! ## The programs of a walk -/

def interpTailCallBudget : Nat := 10

variable (st : WalkPersist)

def walkLoad (maps : WalkMaps) : WalkCtx where
  pc := st.pc
  fp := st.fp
  sp := st.sp
  pid := st.pid
  nPcs := st.nPcs
  maps := maps
  pendingUnwinder := st.pendingUnwinder
  interpDone := st.interpDone

def walkSave (w : WalkCtx) : WalkPersist :=
  { st with
    pc := w.pc
    fp := w.fp
    sp := w.sp
    pid := w.pid
    nPcs := w.nPcs
    pendingUnwinder := w.pendingUnwinder
    interpDone := w.interpDone }

/-- A frame of an interpreter: two words under a tag that is not the native one. -/
structure InterpPair where
  tag : UInt8
  tag_ne : tag ≠ frameTagNative
  a : UInt64
  b : UInt64
deriving DecidableEq

/-- What a module does before it hands back: the pairs it pushes, and what it leaves in the state. -/
structure ModuleRun where
  pairs : List InterpPair
  interpDone : UInt32
  interpScratch : Vector UInt64 4
deriving DecidableEq

/-- The pushes of a module; one that is refused leaves the cursor where it is. -/
def pushPairs : SampleRecord × Nat → List InterpPair → SampleRecord × Nat
  | r, [] => r
  | r, p :: ps =>
    let pushed := r.1.recordPushInterp r.2 p.tag p.a p.b
    pushPairs (pushed.1, pushed.2.1) ps

/-- Where a walk is: in a program, with what that program has on its stack. -/
inductive Walk where
  | /-- In `bpf_loop`, before turn `idx`. -/ looping (st : WalkPersist) (w : WalkCtx) (idx : Nat)
  | /-- `bpf_loop` has returned. -/ looped (st : WalkPersist) (w : WalkCtx)
  | /-- A module has been entered. -/ inModule (st : WalkPersist) (maps : WalkMaps)
  | /-- `interp_resume_step` has been entered. -/ resumeStep (st : WalkPersist) (maps : WalkMaps)
  | /-- `interp_resume_walk` has been entered. -/ resumeWalk (st : WalkPersist) (maps : WalkMaps)
  | /-- The last program has ended, and has emitted this many slots if it was the driver. -/
    ended (st : WalkPersist) (maps : WalkMaps) (emitted : Option Nat)
deriving DecidableEq

/-- What happens next.  Whether a tail call goes through is up to the kernel. -/
inductive WalkAction where
  | /-- A turn of `bpf_loop`, or its end. -/ turn
  | /-- The rest of `unwind_walk`. -/ dispatch (tailCall : Bool)
  | module (run : ModuleRun) (tailCall : Bool)
  | resumeStep (tailCall : Bool)
  | resumeWalk
deriving DecidableEq

namespace Walk

/-- `unwind_walk_begin` and the start of `unwind_walk`. -/
def begin (maps : WalkMaps) (pid tid : UInt32) (pc fp sp : UInt64) : Walk :=
  let st : WalkPersist :=
    { pc := pc, fp := fp, sp := sp, interpScratch := Vector.replicate 4 0, pid := pid, tid := tid, nPcs := 0,
      pendingUnwinder := unwinderNative, interpDone := 0, stopped := false, tailCalls := 0 }
  let maps := { maps with record := { maps.record with walkerFlags := 0 } }
  .looping st (walkLoad st maps) 0

/-- The end of `unwind_walk`. -/
def finish (st : WalkPersist) (w : WalkCtx) : Walk :=
  .ended (walkSave st w) w.maps (some (min w.nPcs maxFrames))

/-- `unwind_walk` after its loop. -/
def dispatch (st : WalkPersist) (w : WalkCtx) (tailCall : Bool) : Walk :=
  if env.interpEnabled ∧ w.pendingUnwinder ≠ unwinderNative then
    if st.tailCalls ≥ interpTailCallBudget then finish st { w with maps := w.maps.count [.budget] }
    else
      let w := { w with pendingUnwinder := unwinderNative }
      let st := walkSave st w
      let st := { st with tailCalls := st.tailCalls + 1 }
      let w := { w with maps := w.maps.count [.dispatched] }
      if tailCall then .inModule st w.maps
      else finish st { w with maps := w.maps.count [.tailcallFailed] }
  else finish st w

/-- A module, up to `interp_return_to_native`. -/
def runModule (maps : WalkMaps) (run : ModuleRun) : WalkPersist × WalkMaps :=
  let r := pushPairs (maps.record, st.nPcs) run.pairs
  ({ st with
     nPcs := r.2
     interpDone := run.interpDone
     interpScratch := run.interpScratch
     pendingUnwinder := unwinderNative }, { maps with record := r.1 })

/-- `interp_resume_step`, up to its tail call. -/
def runResumeStep (st : WalkPersist) (maps : WalkMaps) : WalkPersist × WalkMaps :=
  let r := (walkLoad st (maps.count [.resumed])).unwindFrame env false
  (walkSave { st with stopped := st.stopped || r.2 } r.1, r.1.maps)

def step (env : WalkEnv) : Walk → WalkAction → Option Walk
  | .looping st w idx, .turn =>
    if idx < maxFrames then
      let r := w.unwindFrame env true
      some (if r.2 then .looped st r.1 else .looping st r.1 (idx + 1))
    else some (.looped st w)
  | .looped st w, .dispatch tailCall => some (dispatch env st w tailCall)
  | .inModule st maps, .module run tailCall =>
    let r := runModule st maps run
    some (if tailCall then .resumeStep r.1 r.2 else .ended r.1 r.2 none)
  | .resumeStep st maps, .resumeStep tailCall =>
    let r := runResumeStep env st maps
    some (if tailCall then .resumeWalk r.1 r.2 else .ended r.1 r.2 none)
  | .resumeWalk st maps, .resumeWalk =>
    let w := walkLoad st maps
    some (if st.stopped then finish st w else .looping st w 0)
  | _, _ => none

end Walk

end PerfAgent.Bpf
