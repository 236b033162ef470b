import PerfAgent.Bpf.Handoff
import PerfAgent.Lib.LittleEndian

/-!
# The Python module

`bpf/interp/python/python_walk.h`: the module that the walk hands a frame of the eval loop to.  It
finds the state of the thread in the thread's own storage and follows the chain of interpreter frames
from there, up to the next frame that C has entered; where it stops is kept for the next time.

What a sample reads is static: the bytes of the process, the thread pointer and what userspace has
found out about the process.  The fields of `py_proc_info` that the module does not read are left
out, and the buffer that a frame is read into, which is always there.
-/

namespace PerfAgent.Bpf

/-! ## What a sample reads -/

/-- `struct py_proc_info`. -/
structure PyProcInfo where
  noneAddr : UInt64
  tssKey : UInt32
  pthreadSpecific1stblock : UInt32
  pthreadKeyDataSize : UInt32
  pthreadKeyDataOff : UInt32
  pthreadSize : UInt32
  framePrevious : UInt16
  frameExecutable : UInt16
  frameInstrPtr : UInt16
  frameOwner : UInt16
  threadstateFrame : UInt16
  frameOwnerMax : UInt8
  frameOwnerBoundary : UInt8
  frameExecutableTagged : UInt8
  threadstateFrameIndirect : UInt8
  enabled : UInt8
deriving DecidableEq

structure PyEnv where
  /-- The bytes that can be read. -/
  memory : UInt64 → Option UInt8
  /-- The thread pointer, if the kernel gives it. -/
  tlsBase : Option UInt64
  arm64 : Bool
  pyProcs : AssocMap UInt32 PyProcInfo

variable (env : PyEnv)

/-- `bpf_probe_read_user`: all of the bytes or none. -/
def PyEnv.probeReadUser (addr : UInt64) (size : Nat) : Option (List UInt8) :=
  (List.range size).mapM fun i => env.memory (addr + UInt64.ofNat i)

def u64At (w : List UInt8) (off : Nat) : UInt64 := UInt64.ofNat (leValue ((w.drop off).take 8))

def PyEnv.readU64 (addr : UInt64) : Option UInt64 := (env.probeReadUser addr 8).map (u64At · 0)

def pyTssKeysPerBlock : UInt32 := 32

/-- `py_tss_get`; zero is no answer. -/
def pyTssGet (key : UInt32) (pi : PyProcInfo) : UInt64 :=
  if key ≥ pyTssKeysPerBlock then 0
  else
    match env.tlsBase with
    | none => 0
    | some tlsBase =>
      let tlsBase := if env.arm64 then tlsBase - pi.pthreadSize.toUInt64 else tlsBase
      let slot := tlsBase + pi.pthreadSpecific1stblock.toUInt64 +
        key.toUInt64 * pi.pthreadKeyDataSize.toUInt64 + pi.pthreadKeyDataOff.toUInt64
      (env.readU64 slot).getD 0

/-! ## Counters -/

/-- `PY_CNT_*`. -/
inductive PyCnt where
  | framesPushed
  | tssMiss
  | noProcInfo
  | tstateReadFail
  | frameReadFail
  | implausibleOwner
  | chainTruncated
  | pushRefused
  | noneExecutable
  | chainAbandoned
deriving DecidableEq

abbrev PyCounters := PyCnt → Nat

def pyCount (c : PyCounters) (slot : PyCnt) : PyCounters := Function.update c slot (c slot + 1)

def pyCountUndo (c : PyCounters) (slot : PyCnt) : PyCounters :=
  if c slot > 0 then Function.update c slot (c slot - 1) else c

/-! ## One frame of the chain -/

def pyFrameWindow : Nat := 96

def pyStackrefTagBits : UInt64 := 3

inductive PyFrame where
  | unreadable
  | implausibleFrame
  | /-- C has entered the interpreter here. -/ boundary (prev : UInt64)
  | noExecutable
  | code (exec instr prev : UInt64)
deriving DecidableEq

/-- The part of `py_seg_step` that reads the frame and looks at it. -/
def pyReadFrame (pi : PyProcInfo) (frame : UInt64) : PyFrame :=
  let offOwner := pi.frameOwner.toNat
  let offPrev := pi.framePrevious.toNat
  let offExec := pi.frameExecutable.toNat
  let offInstr := pi.frameInstrPtr.toNat
  if offOwner > pyFrameWindow - 1 ∨ offPrev > pyFrameWindow - 8 ∨ offExec > pyFrameWindow - 8 ∨
      offInstr > pyFrameWindow - 8 then .unreadable
  else
    match env.probeReadUser frame pyFrameWindow with
    | none => .unreadable
    | some w =>
      let owner := w.getD offOwner 0
      if owner > pi.frameOwnerMax then .implausibleFrame
      else
        let prev := u64At w offPrev
        if owner ≥ pi.frameOwnerBoundary then .boundary prev
        else
          let exec := u64At w offExec
          let instr := u64At w offInstr
          let exec := if pi.frameExecutableTagged ≠ 0 then exec &&& ~~~pyStackrefTagBits else exec
          if exec = 0 ∨ pi.noneAddr ≠ 0 ∧ exec = pi.noneAddr then .noExecutable
          else .code exec instr prev

abbrev pyScratchFrame : Nat := 0
abbrev pyScratchState : Nat := 1

def pyChainUnstarted : UInt8 := 0
def pyChainActive : UInt8 := 1
def pyChainDone : UInt8 := 2

def interpIdPython : UInt8 := 1

/-- `struct py_seg`, with the counters. -/
structure PySeg where
  record : SampleRecord
  frame : UInt64
  nPcs : Nat
  state : UInt8
  stopped : Bool
  counters : PyCounters

namespace PySeg

def count (s : PySeg) (slot : PyCnt) : PySeg := { s with counters := pyCount s.counters slot }

def stop (s : PySeg) (state : UInt8) : PySeg × Bool := ({ s with state := state, stopped := true }, true)

/-- `py_seg_step`: the segment after the frame, and whether it ends there. -/
def step (env : PyEnv) (pi : PyProcInfo) (s : PySeg) : PySeg × Bool :=
  if s.frame = 0 then s.stop pyChainDone
  else
    match pyReadFrame env pi s.frame with
    | .unreadable => (s.count .frameReadFail).stop pyChainDone
    | .implausibleFrame => (s.count .implausibleOwner).stop pyChainDone
    | .boundary prev =>
      if prev ≠ 0 then { s with frame := prev }.stop pyChainActive else s.stop pyChainDone
    | .noExecutable => (s.count .noneExecutable).stop pyChainDone
    | .code exec instr prev =>
      let r := s.record.recordPushInterp s.nPcs interpIdPython exec instr
      let s := { s with record := r.1, nPcs := r.2.1 }
      if r.2.2 then ((s.count .pushRefused).count .chainTruncated).stop pyChainDone
      else ({ s.count .framesPushed with frame := prev }, false)

/-- `bpf_loop` over `py_seg_step`, with the turns that are left. -/
def loop (env : PyEnv) (pi : PyProcInfo) : Nat → PySeg → PySeg
  | 0, s => s
  | turns + 1, s =>
    let r := s.step env pi
    if r.2 then r.1 else loop env pi turns r.1

end PySeg

/-! ## One segment -/

/-- The bit of this module in `interp_done`. -/
def pyDoneBit : UInt32 := 1 <<< (1 : UInt32)

structure PyMaps where
  record : SampleRecord
  counters : PyCounters

variable (st : WalkPersist)

def WalkPersist.setState (state : UInt8) : WalkPersist :=
  { st with interpScratch := st.interpScratch.set pyScratchState state.toUInt64 }

def WalkPersist.setFrame (frame : UInt64) : WalkPersist :=
  { st with interpScratch := st.interpScratch.set pyScratchFrame frame }

/-- `(__u8)st->interp_scratch[PY_SCRATCH_STATE]`. -/
def WalkPersist.chainState : UInt8 := st.interpScratch[pyScratchState].toUInt8

def WalkPersist.chainFrame : UInt64 := st.interpScratch[pyScratchFrame]

def WalkPersist.markDone : WalkPersist := { st with interpDone := st.interpDone ||| pyDoneBit }

/-- The first frame of the chain, or what to count if there is none. -/
def pyCurrentFrame (pi : PyProcInfo) : Except PyCnt UInt64 :=
  let tstate := pyTssGet env pi.tssKey pi
  if tstate = 0 then .error .tssMiss
  else
    match env.readU64 (tstate + pi.threadstateFrame.toUInt64) with
    | none => .error .tstateReadFail
    | some p =>
      if pi.threadstateFrameIndirect ≠ 0 then
        if p = 0 then .error .tstateReadFail
        else
          match env.readU64 p with
          | none => .error .tstateReadFail
          | some p => .ok p
      else .ok p

/-- The part of `py_walk_segment` from the loop on. -/
def pySegment (pi : PyProcInfo) (st : WalkPersist) (maps : PyMaps) (frame : UInt64) : WalkPersist × PyMaps :=
  let seg := PySeg.loop env pi maxFrames
    { record := maps.record, frame := frame, nPcs := st.nPcs, state := pyChainDone, stopped := false,
      counters := maps.counters }
  let st := { st with nPcs := seg.nPcs }
  let seg := if seg.stopped then seg else { seg.count .chainTruncated with state := pyChainDone }
  let st := st.setState seg.state
  if seg.state = pyChainActive then
    (st.setFrame seg.frame, ⟨seg.record, pyCount seg.counters .chainAbandoned⟩)
  else ((st.setFrame 0).markDone, ⟨seg.record, seg.counters⟩)

def PyEnv.enabledProc (pid : UInt32) : Option PyProcInfo :=
  (env.pyProcs.find? pid).filter (·.enabled ≠ 0)

/-- `py_walk_segment`. -/
def pyWalkSegment (st : WalkPersist) (maps : PyMaps) : WalkPersist × PyMaps :=
  let state := st.chainState
  if state = pyChainDone then (st.markDone, maps)
  else
    match env.enabledProc st.pid with
    | none =>
      let counters := if state = pyChainUnstarted then pyCount maps.counters .noProcInfo else maps.counters
      ((st.setState pyChainDone).markDone, { maps with counters := counters })
    | some pi =>
      if state = pyChainUnstarted then
        let st := (st.setState pyChainDone).markDone
        match pyCurrentFrame env pi with
        | .error slot => (st, { maps with counters := pyCount maps.counters slot })
        | .ok frame => pySegment env pi { st with interpDone := st.interpDone &&& ~~~pyDoneBit } maps frame
      else
        pySegment env pi st { maps with counters := pyCountUndo maps.counters .chainAbandoned } st.chainFrame

end PerfAgent.Bpf
