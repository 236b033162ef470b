import PerfAgent.Gpu.Types

/-!
# Resolving a captured stack

`resolveStackLocked` of `gpuprobe/consumer.go`: read a stack out of the BPF map, take the words
the walk produced, fold the interpreter pairs (`unwind/interp/frame.go`), symbolize the native
addresses against the launching process, and flatten the inline chains
(`symbolize/toprof.go`).  What the kernel map, the symbolizer and the unwind registry answer is
a parameter, and may be different at every call.

The counters that the accounting of sampled launches is about stand in a record of their own;
the others say how the walk went, and decide nothing.
-/

namespace PerfAgent.Gpuprobe

open Gpu

/-! ## The counters -/

structure StackAccount where
  sampledLaunches : Nat := 0
  stacksMissing : Nat := 0
  stacksUncorrelated : Nat := 0
  stackLookupFailed : Nat := 0
  symbolizeFailed : Nat := 0
  stacksResolved : Nat := 0
  stacksAttached : Nat := 0
  stacksEvicted : Nat := 0
  stacksProfilerOnly : Nat := 0
deriving DecidableEq

structure StackStats extends StackAccount where
  stacksProfilerOnlyUncertain : Nat := 0
  stackDeleteFailed : Nat := 0
  stackWalkEmpty : Nat := 0
  stacksWalkedDWARF : Nat := 0
  stacksWalkedFPOnly : Nat := 0
  stacksWalkedNoTables : Nat := 0
  stacksNoTablesAfterEnroll : Nat := 0
  stacksWalkedCFIMiss : Nat := 0
  stackWalkReachedRoot : Nat := 0
  stackWalkFPExhausted : Nat := 0
  stackWalkFPNonMonotonic : Nat := 0
  stackWalkRootDisagreement : Nat := 0
  stackWalkRAZero : Nat := 0
  stackWalkAbandoned : Nat := 0
  stackWalkTruncated : Nat := 0
  stackInterpPairsTruncated : Nat := 0
  stackFramesUnresolved : Nat := 0
  stackFramesModuleOnly : Nat := 0
  stacksUnresolved : Nat := 0
  stackInterpFrames : Nat := 0
  stackFramesElided : Nat := 0
  stacksWithInstrumentationBand : Nat := 0
deriving DecidableEq

/-! ## Slots and frames -/

/-- One frame of a walk: a native address, or the pair of words of an interpreter. -/
structure Slot where
  unwinder : Nat := 0
  pc : Nat
  extra : Nat := 0
deriving DecidableEq

def frameTagNative : Nat := 0

def Slot.isInterp (s : Slot) : Bool := s.unwinder != frameTagNative

/-- Fold the words and their tags into frames.  An interpreter frame whose second word fell off
the end is dropped, and that is what the answer says. -/
def splitSlots : List Nat → List Nat → List Slot × Bool
  | [], _ => ([], false)
  | pc :: pcs, [] =>
    let r := splitSlots pcs []
    ({ pc := pc } :: r.1, r.2)
  | pc :: pcs, tag :: tags =>
    if tag = frameTagNative then
      let r := splitSlots pcs tags
      ({ pc := pc } :: r.1, r.2)
    else
      match pcs with
      | [] => ([], true)
      | extra :: pcs =>
        let r := splitSlots pcs tags.tail
        ({ unwinder := tag, pc := pc, extra := extra } :: r.1, r.2)

def nativeIPs (slots : List Slot) : List Nat :=
  (slots.filter fun s => !s.isInterp).map Slot.pc

inductive FailureReason where
  | none
  | unmapped
  | invalidFileOffset
  | missingComponent
  | missingSymbols
  | unknownAddress
  | fetchError
  | noBuildID
deriving DecidableEq

structure InlinedFrame where
  name : String := ""
  file : String := ""
  line : Int := 0
  startLine : Int := 0
deriving DecidableEq

/-- A frame as the symbolizer hands it over (`symbolize.Frame`). -/
structure SymFrame where
  address : Nat
  name : String := ""
  module : String := ""
  buildID : String := ""
  file : String := ""
  line : Int := 0
  startLine : Int := 0
  inlined : List InlinedFrame := []
  reason : FailureReason := .none
  mapStart : Nat := 0
  mapLimit : Nat := 0
  mapOff : Nat := 0
deriving DecidableEq

/-- `uint32` of a signed integer. -/
def uint32OfInt (i : Int) : Nat := (i % 2 ^ 32).toNat

/-- The address relative to the file behind its mapping, if one is known. -/
def SymFrame.moduleOffset (f : SymFrame) : Option Nat :=
  if f.module = "" ∨ f.mapLimit ≤ f.mapStart then none
  else if f.address < f.mapStart ∨ f.mapLimit ≤ f.address then none
  else some ((f.address - f.mapStart + f.mapOff) % 2 ^ 64)

/-- The frames of one address: its inline chain, innermost first, and the function itself. -/
def SymFrame.toProf (f : SymFrame) : List Frame :=
  (f.inlined.reverse.map fun i =>
    { name := i.name, module := f.module, file := i.file, line := uint32OfInt i.line,
      startLine := uint32OfInt i.startLine, address := f.address }) ++
  [{ name := f.name, module := f.module, file := f.file, line := uint32OfInt f.line,
     startLine := uint32OfInt f.startLine, address := f.address, buildID := f.buildID,
     mapStart := f.mapStart, mapLimit := f.mapLimit, mapOff := f.mapOff,
     unresolved := f.reason != .none }]

def toProfFrames (frames : List SymFrame) : List Frame := frames.flatMap SymFrame.toProf

/-! ## What is outside -/

inductive Lookup where
  | value (raw : List UInt8)
  | keyNotExist
  | failed
deriving DecidableEq

/-- The `gpu_stacks` map. -/
structure StackStore where
  lookupBytes : Nat → Lookup
  deleteFails : Nat → Bool := fun _ => false

/-- What the consumer's surroundings answer while one batch is applied. -/
structure StackEnv where
  gpuStacks : Option StackStore := none
  /-- `unwind.ready` and `unwind.enrolled`. -/
  ready : Nat → Bool := fun _ => false
  enrolled : Nat → Bool := fun _ => false
  symbolizer : Option (Nat → List Nat → Option (List SymFrame)) := none
  /-- The name of an interpreter frame of a process. -/
  nameFor : Nat → Slot → String := fun _ _ => ""

/-! ## The walk -/

def maxWalkFrames : Nat := 127
def gpuStackHdrSize : Nat := 8
def gpuStackTagsOff : Nat := gpuStackHdrSize + maxWalkFrames * 8
def gpuStackPadBytes : Nat := 1
def gpuStackSize : Nat := gpuStackTagsOff + maxWalkFrames + gpuStackPadBytes

def walkerFlagFPTerminated : Nat := 0x01
def walkerFlagDWARFUsed : Nat := 0x02
def walkerFlagCFIMiss : Nat := 0x04
def walkerFlagRAUndefined : Nat := 0x08
def walkerFlagFPExhausted : Nat := 0x10
def walkerFlagFPNonMonotonic : Nat := 0x20
def walkerFlagRootDisagreement : Nat := 0x40
def walkerFlagRAZero : Nat := 0x100
def walkerFlagsTerminated : Nat := walkerFlagFPTerminated ||| walkerFlagRAUndefined

/-- The little-endian integer of `n` bytes of a value whose length has been checked. -/
def leUint (raw : List UInt8) (off n : Nat) : Nat :=
  ((raw.drop off).take n).foldr (fun x v => x.toNat + 256 * v) 0

/-- Read a `struct gpu_stack`: the words, their tags and the walker's flags.  The count comes
off the wire and is clamped; what lies past it is the previous capture's. -/
def decodeGPUStack (raw : List UInt8) : Option (List Nat × List Nat × Nat) :=
  if raw.length < gpuStackSize then none
  else
    let n := min (leUint raw 0 4) maxWalkFrames
    some ((List.range n).map (fun i => leUint raw (gpuStackHdrSize + i * 8) 8),
      (List.range n).map (fun i => leUint raw (gpuStackTagsOff + i) 1), leUint raw 4 4)

variable (env : StackEnv) (st : StackStats)

def anyFlag (flags mask : Nat) : Bool := flags &&& mask != 0

namespace StackStats

/-- How the walk got its frames: with unwind tables, or along frame pointers and why. -/
def noteWalked (st : StackStats) (pid flags : Nat) : StackStats :=
  if anyFlag flags walkerFlagDWARFUsed then
    { st with stacksWalkedDWARF := st.stacksWalkedDWARF + 1 }
  else
    let st := { st with stacksWalkedFPOnly := st.stacksWalkedFPOnly + 1 }
    if env.ready pid then st
    else
      let st := { st with stacksWalkedNoTables := st.stacksWalkedNoTables + 1 }
      if env.enrolled pid then
        { st with stacksNoTablesAfterEnroll := st.stacksNoTablesAfterEnroll + 1 }
      else st

def noteFlags (flags : Nat) : StackStats :=
  { st with
    stacksWalkedCFIMiss :=
      st.stacksWalkedCFIMiss + (anyFlag flags walkerFlagCFIMiss).toNat
    stackWalkReachedRoot :=
      st.stackWalkReachedRoot + (anyFlag flags walkerFlagRAUndefined).toNat
    stackWalkFPExhausted :=
      st.stackWalkFPExhausted + (anyFlag flags walkerFlagFPExhausted).toNat
    stackWalkFPNonMonotonic :=
      st.stackWalkFPNonMonotonic + (anyFlag flags walkerFlagFPNonMonotonic).toNat
    stackWalkRootDisagreement :=
      st.stackWalkRootDisagreement + (anyFlag flags walkerFlagRootDisagreement).toNat
    stackWalkRAZero := st.stackWalkRAZero + (anyFlag flags walkerFlagRAZero).toNat }

/-- How the walk ended.  A disagreement about the root comes first, because it only ever
arrives together with a termination flag. -/
def noteEnd (flags n : Nat) : StackStats :=
  if anyFlag flags walkerFlagRootDisagreement then
    { st with stackWalkAbandoned := st.stackWalkAbandoned + 1 }
  else if anyFlag flags walkerFlagsTerminated then st
  else if anyFlag flags (walkerFlagFPExhausted ||| walkerFlagFPNonMonotonic) then
    { st with stackWalkAbandoned := st.stackWalkAbandoned + 1 }
  else if n = maxWalkFrames then { st with stackWalkTruncated := st.stackWalkTruncated + 1 }
  else { st with stackWalkAbandoned := st.stackWalkAbandoned + 1 }

def noteFrames (frames : List SymFrame) : StackStats :=
  let resolved := frames.countP fun f => f.reason == .none
  let moduleOnly := frames.countP fun f => f.reason != .none && f.moduleOffset.isSome
  { st with
    stackFramesUnresolved := st.stackFramesUnresolved + (frames.length - resolved)
    stackFramesModuleOnly := st.stackFramesModuleOnly + moduleOnly
    stacksUnresolved := st.stacksUnresolved + if resolved = 0 ∧ frames ≠ [] then 1 else 0 }

def freeStackLocked (st : StackStats) (stackID : Nat) : StackStats :=
  match env.gpuStacks with
  | none => st
  | some store =>
    if store.deleteFails stackID then
      { st with stackDeleteFailed := st.stackDeleteFailed + 1 }
    else st

end StackStats

def spliceFrames (env : StackEnv) (pid : Nat) : List Slot → List SymFrame → List SymFrame
  | [], _ => []
  | s :: slots, frames =>
    if s.isInterp then
      { address := s.pc, name := env.nameFor pid s, reason := .missingSymbols } :: spliceFrames env pid slots frames
    else
      match frames with
      | [] => spliceFrames env pid slots []
      | f :: frames => f :: spliceFrames env pid slots frames

/-- The second half of `resolveStackLocked`: symbolize the words of a walk. -/
def symbolizeStack (st : StackStats) (pid : Nat) (ips tags : List Nat) : StackStats × Option (List Frame) :=
  match env.symbolizer with
  | none => ({ st with symbolizeFailed := st.symbolizeFailed + 1 }, none)
  | some symbolizeProcess =>
    let (slots, truncatedPair) := splitSlots ips tags
    let st := { st with
      stackInterpPairsTruncated := st.stackInterpPairsTruncated + truncatedPair.toNat }
    let native := nativeIPs slots
    match if native = [] then some [] else symbolizeProcess pid native with
    | none => ({ st with symbolizeFailed := st.symbolizeFailed + 1 }, none)
    | some frames =>
      let st := st.noteFrames frames
      if frames.length ≠ native.length then
        ({ st with symbolizeFailed := st.symbolizeFailed + 1 }, none)
      else
        let st := { st with
          stackInterpFrames := st.stackInterpFrames + slots.countP Slot.isInterp }
        let out := toProfFrames <|
          if native.length ≠ slots.length then spliceFrames env pid slots frames else frames
        if out = [] then ({ st with symbolizeFailed := st.symbolizeFailed + 1 }, none)
        else (st, some out)

/-- Turn a handle into frames.  Every failure is counted where it is found. -/
def resolveStackLocked (st : StackStats) (pid stackID : Nat) : StackStats × Option (List Frame) :=
  match env.gpuStacks with
  | none => ({ st with stackLookupFailed := st.stackLookupFailed + 1 }, none)
  | some store =>
    match store.lookupBytes stackID with
    | .keyNotExist => ({ st with stackLookupFailed := st.stackLookupFailed + 1 }, none)
    | .failed =>
      -- the slot is still occupied, and nothing else would ever free it
      (StackStats.freeStackLocked env { st with stackLookupFailed := st.stackLookupFailed + 1 } stackID, none)
    | .value raw =>
      if raw = [] then
        (StackStats.freeStackLocked env { st with stackLookupFailed := st.stackLookupFailed + 1 } stackID, none)
      else
        let st := st.freeStackLocked env stackID
        match decodeGPUStack raw with
        | none => ({ st with stackLookupFailed := st.stackLookupFailed + 1 }, none)
        | some (ips, tags, flags) =>
          if ips = [] then
            ({ st with
              stackLookupFailed := st.stackLookupFailed + 1
              stackWalkEmpty := st.stackWalkEmpty + 1 }, none)
          else
            symbolizeStack env (((st.noteWalked env pid flags).noteFlags flags).noteEnd flags ips.length) pid ips tags

/-! ## What is counted -/

namespace StackStats

@[simp] theorem account_noteWalked (st : StackStats) (pid flags : Nat) :
    (st.noteWalked env pid flags).toStackAccount = st.toStackAccount := by
  unfold noteWalked
  dsimp only
  split_ifs <;> rfl

@[simp] theorem account_noteEnd (flags n : Nat) : (st.noteEnd flags n).toStackAccount = st.toStackAccount := by
  unfold noteEnd
  split_ifs <;> rfl

@[simp] theorem account_freeStackLocked (st : StackStats) (stackID : Nat) :
    (st.freeStackLocked env stackID).toStackAccount = st.toStackAccount := by
  unfold freeStackLocked
  split
  · rfl
  · split_ifs <;> rfl

end StackStats

/-- The account after a resolution: one failure more when there are no frames, and nothing when
there are. -/
inductive Resolution (a : StackAccount) : StackAccount → Option (List Frame) → Prop
  | lookupFailed : Resolution a { a with stackLookupFailed := a.stackLookupFailed + 1 } none
  | symbolizeFailed : Resolution a { a with symbolizeFailed := a.symbolizeFailed + 1 } none
  | resolved (frames : List Frame) : Resolution a a (some frames)

theorem resolution_symbolizeStack (st : StackStats) (pid : Nat) (ips tags : List Nat) :
    Resolution st.toStackAccount (symbolizeStack env st pid ips tags).1.toStackAccount
      (symbolizeStack env st pid ips tags).2 := by
  unfold symbolizeStack
  split
  · exact .symbolizeFailed
  · dsimp only
    split
    · exact .symbolizeFailed
    · split_ifs
      all_goals first | exact .symbolizeFailed | exact .resolved _

theorem resolution_resolveStackLocked (st : StackStats) (pid stackID : Nat) :
    Resolution st.toStackAccount (resolveStackLocked env st pid stackID).1.toStackAccount
      (resolveStackLocked env st pid stackID).2 := by
  unfold resolveStackLocked
  split
  · exact .lookupFailed
  · split
    · exact .lookupFailed
    · rw [StackStats.account_freeStackLocked]
      exact .lookupFailed
    · split_ifs with hraw
      · rw [StackStats.account_freeStackLocked]
        exact .lookupFailed
      · dsimp only
        rw [← StackStats.account_freeStackLocked env st stackID]
        split
        · exact .lookupFailed
        · next ips tags flags _ =>
            split_ifs
            · exact .lookupFailed
            · have h := resolution_symbolizeStack env
                ((((st.freeStackLocked env stackID).noteWalked env pid flags).noteFlags
                  flags).noteEnd flags ips.length) pid ips tags
              rw [StackStats.account_noteEnd] at h
              rwa [← StackStats.account_noteWalked env (st.freeStackLocked env stackID) pid flags]

end PerfAgent.Gpuprobe
