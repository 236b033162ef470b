import Mathlib.Data.UInt

/-!
# The sample record

`bpf/unwind_record.h`: the record that the native walk and the interpreter modules append to,
and the state of a walk that survives a tail call.  The record lies in a buffer that is used
again for every sample, so the slots from the cursor on hold whatever was there before.  The
fields of its header that the drivers fill in are left out.
-/

namespace PerfAgent.Bpf

def maxFrames : Nat := 127

def frameTagNative : UInt8 := 0

def walkerFlagFramePushRefused : UInt16 := 0x80

structure SampleRecord where
  walkerFlags : UInt16
  pcs : Vector UInt64 maxFrames
  tags : Vector UInt8 maxFrames
deriving DecidableEq

/-- `struct walk_persist`. -/
structure WalkPersist where
  pc : UInt64
  fp : UInt64
  sp : UInt64
  interpScratch : Vector UInt64 4
  pid : UInt32
  tid : UInt32
  nPcs : Nat
  pendingUnwinder : UInt32
  interpDone : UInt32
  stopped : Bool
  tailCalls : Nat
deriving DecidableEq

namespace SampleRecord

/-- `walker_flags |= bits`. -/
def flag (r : SampleRecord) (bits : UInt16) : SampleRecord :=
  { r with walkerFlags := r.walkerFlags ||| bits }

def set (r : SampleRecord) (i : Nat) (h : i < maxFrames) (tag : UInt8) (pc : UInt64) : SampleRecord :=
  { r with tags := r.tags.set i tag, pcs := r.pcs.set i pc }

/-- `record_push_native`: the record, the cursor, and whether the push was refused. -/
def recordPushNative (r : SampleRecord) (n : Nat) (pc : UInt64) : SampleRecord × Nat × Bool :=
  if h : n ≥ maxFrames then (r.flag walkerFlagFramePushRefused, n, true)
  else (r.set n (Nat.lt_of_not_le h) frameTagNative pc, n + 1, false)

theorem next_lt {n : Nat} (h : ¬n > maxFrames - 2) : n + 1 < maxFrames := by
  unfold maxFrames at h ⊢
  omega

/-- `record_push_interp`. -/
def recordPushInterp (r : SampleRecord) (n : Nat) (tag : UInt8) (a b : UInt64) : SampleRecord × Nat × Bool :=
  if h : n > maxFrames - 2 then (r.flag walkerFlagFramePushRefused, n, true)
  else
    ((r.set n (Nat.lt_of_succ_lt (next_lt h)) tag a).set (n + 1) (next_lt h) tag b, n + 2, false)

/-! ## Slots -/

def slot (r : SampleRecord) (i : Nat) : Option (UInt8 × UInt64) :=
  r.tags[i]?.bind fun tag => r.pcs[i]?.map fun pc => (tag, pc)

def slots (r : SampleRecord) (n : Nat) : List (UInt8 × UInt64) := (List.range n).filterMap r.slot

def natives (r : SampleRecord) (n : Nat) : List UInt64 :=
  (r.slots n).filterMap fun s => if s.1 = frameTagNative then some s.2 else none

variable {r : SampleRecord} {i n : Nat} {tag : UInt8} {pc : UInt64}

@[simp] theorem slots_flag (bits : UInt16) : (r.flag bits).slots n = r.slots n := rfl

@[simp] theorem walkerFlags_set {h : i < maxFrames} : (r.set i h tag pc).walkerFlags = r.walkerFlags := rfl

theorem slot_set_self (h : i < maxFrames) : (r.set i h tag pc).slot i = some (tag, pc) := by
  unfold slot SampleRecord.set
  simp [h]

theorem slot_set_of_ne {j : Nat} (h : i < maxFrames) (hne : j ≠ i) : (r.set i h tag pc).slot j = r.slot j := by
  unfold slot SampleRecord.set
  simp [hne.symm]

theorem slots_set (h : n < maxFrames) : (r.set n h tag pc).slots (n + 1) = r.slots n ++ [(tag, pc)] := by
  have hbefore : (r.set n h tag pc).slots n = r.slots n := by
    refine List.filterMap_congr fun i hi => ?_
    exact slot_set_of_ne h (Nat.ne_of_lt (List.mem_range.mp hi))
  unfold slots at hbefore ⊢
  rw [List.range_succ, List.filterMap_append, hbefore, List.filterMap_cons_some (slot_set_self h)]
  rfl

theorem natives_set (h : n < maxFrames) :
    (r.set n h tag pc).natives (n + 1) = r.natives n ++ if tag = frameTagNative then [pc] else [] := by
  unfold natives
  rw [slots_set h, List.filterMap_append]
  congr 1
  split
  · next htag => exact List.filterMap_cons_some (if_pos htag)
  · next htag => exact List.filterMap_cons_none (if_neg htag)

end SampleRecord

end PerfAgent.Bpf
