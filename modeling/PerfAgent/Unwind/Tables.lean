import PerfAgent.Lib.AssocMap
import PerfAgent.Unwind.Interpreter

/-!
# The tables of the walker

The maps that `unwind/ehmaps/ehmaps.go` fills and `bpf/unwind_common.h` reads: for every binary
an array of rows and its length, and for every process an array of mappings and its length.
A call to the kernel may fail; which of them does, if any, is an argument.
-/

namespace PerfAgent.Unwind

structure PIDMapping where
  vmaStart : UInt64
  vmaEnd : UInt64
  loadBias : UInt64
  tableID : UInt64
deriving DecidableEq

/-- `cfi_rules`, `cfi_lengths`, `pid_mappings` and `pid_mapping_lengths`. -/
structure Tables where
  cfiRules : AssocMap UInt64 (List CFIEntry) := ∅
  cfiLengths : AssocMap UInt64 UInt32 := ∅
  pidMappings : AssocMap UInt32 (List PIDMapping) := ∅
  pidMappingLengths : AssocMap UInt32 UInt32 := ∅
deriving DecidableEq

/-! ## Population -/

def maxPIDMappings : Nat := 256

def binarySearchMaxIters : Nat := 24

def maxSearchableRows : Nat := 1 <<< binarySearchMaxIters

/-- `for v := n - 1; v > 0; v >>= 1`. -/
def bitsNeededFrom : Nat → Nat → Nat
  | 0, _ => 0
  | fuel + 1, v => if 0 < v then 1 + bitsNeededFrom fuel (v >>> 1) else 0

def bitsNeeded (n : Nat) : Nat := bitsNeededFrom n (n - 1)

inductive PopulateError where
  | noEntries
  | tableTooLarge (rows : Nat) (tableID : UInt64) (needs has : Nat)
  | noMappings
  | tooManyMappings (n : Nat)
  | createInner
  | writeInner (i : Nat)
  | installInner
  | writeLength
deriving DecidableEq

inductive KernelCall where
  | createInner
  | /-- A write of row `i`. -/ writeInner (i : Nat)
  | installInner
  | writeLength
deriving DecidableEq

variable (m : Tables)

/-- `PopulateCFI`: the maps after the call, and its error. -/
def Tables.populateCFI (tableID : UInt64) (entries : List CFIEntry) (fails : Option KernelCall) :
    Tables × Option PopulateError :=
  if entries.length = 0 then (m, some .noEntries)
  else if entries.length > maxSearchableRows then
    (m, some (.tableTooLarge entries.length tableID (bitsNeeded entries.length) binarySearchMaxIters))
  else
    let installed : Tables := { m with cfiRules := m.cfiRules.put tableID entries }
    match fails with
    | some .createInner => (m, some .createInner)
    | some (.writeInner i) => (m, some (.writeInner i))
    | some .installInner => (m, some .installInner)
    | some .writeLength => (installed, some .writeLength)
    | none =>
      ({ installed with cfiLengths := m.cfiLengths.put tableID (UInt32.ofNat entries.length) }, none)

/-- `PopulatePIDMappings`. -/
def Tables.populatePIDMappings (pid : UInt32) (mappings : List PIDMapping) (fails : Option KernelCall) :
    Tables × Option PopulateError :=
  if mappings.length = 0 then (m, some .noMappings)
  else if mappings.length > maxPIDMappings then (m, some (.tooManyMappings mappings.length))
  else
    let installed : Tables := { m with pidMappings := m.pidMappings.put pid mappings }
    match fails with
    | some .createInner => (m, some .createInner)
    | some (.writeInner i) => (m, some (.writeInner i))
    | some .installInner => (m, some .installInner)
    | some .writeLength => (installed, some .writeLength)
    | none =>
      ({ installed with
         pidMappingLengths := m.pidMappingLengths.put pid (UInt32.ofNat mappings.length) }, none)

/-! ## Lookup -/

/-- The loop of `cfi_lookup`.  The indices are 32-bit numbers and none of the sums leaves them:
`lo ≤ mid < hi`, and `hi` starts from a stored length. -/
def cfiSearch (inner : List CFIEntry) (relPc : UInt64) : Nat → Nat → Nat → Option CFIEntry
  | 0, _, _ => none
  | i + 1, lo, hi =>
    if lo ≥ hi then none
    else
      let mid := lo + (hi - lo) / 2
      match inner[mid]? with
      | none => none
      | some e =>
        if relPc < e.pcStart then cfiSearch inner relPc i lo mid
        else if relPc ≥ e.pcStart + e.pcEndDelta.toUInt64 then cfiSearch inner relPc i (mid + 1) hi
        else some e

def Tables.cfiLookup (tableID relPc : UInt64) : Option CFIEntry :=
  match m.cfiRules.find? tableID with
  | none => none
  | some inner =>
    match m.cfiLengths.find? tableID with
    | none => none
    | some len => if len = 0 then none else cfiSearch inner relPc binarySearchMaxIters 0 len.toNat

end PerfAgent.Unwind
