import PerfAgent.Lib.AssocMap
import PerfAgent.Lib.Machine
import PerfAgent.Lib.Recency

/-!
# The module store

The bounded store of parsed modules (`gpu/modulestore.go`): a map from checksums to entries, a
list of the same entries in order of recency, two bounds, and counters.  Every method is one
critical section, except for `Put`: it looks whether the module is held, parses it without the
lock, and looks again before it stores it.

The parser is a parameter: nothing here depends on what it accepts.  Of a parsed module the
store reads four things.  Places of the list are numbers, where the source has pointers.
-/

namespace PerfAgent.Gpu

/-- What the store reads of a parsed module (`internal/cubin`): its functions with their symbol
indices, whether it has a line table, whether that is damaged, and the lookup in it. -/
structure Cubin where
  functions : List (String × Int)
  hasLineInfo : Bool
  lineInfoErr : Option String
  resolve : String → Nat → Option (String × Nat)

inductive SrcStatus where
  | resolved
  | noLineInfo
  | noModule
  | unmapped
deriving DecidableEq

/-- The answer of `Resolve`. -/
structure Resolution where
  status : SrcStatus
  function : String := ""
  file : String := ""
  line : Nat := 0
deriving DecidableEq

/-- The counters of the store; its two gauges are read off the store itself. -/
structure ModuleStoreStats where
  modulesStored : Nat := 0
  modulesEvicted : Nat := 0
  modulesEvictedCapacity : Nat := 0
  modulesEvictedBytes : Nat := 0
  modulesWithLineInfo : Nat := 0
  modulesWithoutLineInfo : Nat := 0
  modulesDamagedLineInfo : Nat := 0
  modulesUnparseable : Nat := 0
  resolveResolved : Nat := 0
  resolveNoModule : Nat := 0
  resolveNoLineInfo : Nat := 0
  resolveUnmapped : Nat := 0
deriving DecidableEq

namespace ModuleStoreStats

def resolveTotal (st : ModuleStoreStats) : Nat :=
  st.resolveResolved + st.resolveNoModule + st.resolveNoLineInfo + st.resolveUnmapped

def modulesClassified (st : ModuleStoreStats) : Nat :=
  st.modulesWithLineInfo + st.modulesWithoutLineInfo + st.modulesDamagedLineInfo + st.modulesUnparseable

/-- Count an answer of `Resolve`. -/
def answered (st : ModuleStoreStats) : SrcStatus → ModuleStoreStats
  | .resolved => { st with resolveResolved := st.resolveResolved + 1 }
  | .noModule => { st with resolveNoModule := st.resolveNoModule + 1 }
  | .noLineInfo => { st with resolveNoLineInfo := st.resolveNoLineInfo + 1 }
  | .unmapped => { st with resolveUnmapped := st.resolveUnmapped + 1 }

end ModuleStoreStats

inductive ModuleClass where
  | withLineInfo
  | withoutLineInfo
  | damagedLineInfo
  | unparseable
deriving DecidableEq

structure ModuleEntry where
  crc : Nat
  bytes : List UInt8
  parsed : Except String Cubin
  byIndex : AssocMap Nat String
  elem : Nat

structure ModuleStore where
  capacity : Nat
  maxBytes : Nat
  byCRC : AssocMap Nat ModuleEntry := ∅
  /-- Most recently used at the front. -/
  lru : List ModuleEntry := []
  liveBytes : Int := 0
  /-- The places of the list handed out so far. -/
  elems : Nat := 0
  stats : ModuleStoreStats := {}

def defaultModuleStoreCapacity : Nat := 512

def defaultModuleStoreMaxBytes : Nat := 64 * 2 ^ 20

def newModuleStore (capacity maxBytes : Int) : ModuleStore where
  capacity := if capacity ≤ 0 then defaultModuleStoreCapacity else capacity.toNat
  maxBytes := if maxBytes ≤ 0 then defaultModuleStoreMaxBytes else maxBytes.toNat

/-- A module that was dropped, and those that were left when it was. -/
structure Eviction where
  victim : Nat
  left : List Nat
deriving DecidableEq

namespace ModuleStore

/-- `MoveToFront` of `container/list`. -/
def moveToFront (lru : List ModuleEntry) (elem : Nat) : List ModuleEntry :=
  match lru.find? (·.elem == elem) with
  | none => lru
  | some e => e :: lru.eraseP (·.elem == elem)

def touch (s : ModuleStore) (e : ModuleEntry) : ModuleStore :=
  { s with lru := moveToFront s.lru e.elem }

def indexFunctions (c : Cubin) : AssocMap Nat String :=
  c.functions.foldl (fun m fn =>
    if fn.2 < 0 ∨ fn.2 > 2 ^ 32 - 1 then m else m.put fn.2.toNat fn.1) ∅

/-- What `Put` counts a module under. -/
def classify : Except String Cubin → ModuleClass
  | .error _ => .unparseable
  | .ok c =>
    if c.lineInfoErr.isSome then .damagedLineInfo
    else if !c.hasLineInfo then .withoutLineInfo
    else .withLineInfo

def countClass (st : ModuleStoreStats) : ModuleClass → ModuleStoreStats
  | .unparseable => { st with modulesUnparseable := st.modulesUnparseable + 1 }
  | .damagedLineInfo => { st with modulesDamagedLineInfo := st.modulesDamagedLineInfo + 1 }
  | .withoutLineInfo => { st with modulesWithoutLineInfo := st.modulesWithoutLineInfo + 1 }
  | .withLineInfo => { st with modulesWithLineInfo := st.modulesWithLineInfo + 1 }

def evictOldestLocked (s : ModuleStore) : Option (ModuleEntry × ModuleStore) :=
  match s.lru.getLast? with
  | none => none
  | some e =>
    some (e, { s with
      lru := s.lru.dropLast
      byCRC := s.byCRC.del e.crc
      liveBytes := s.liveBytes - e.bytes.length
      stats := { s.stats with modulesEvicted := s.stats.modulesEvicted + 1 } })

/-- A loop of `evictLocked`: drop modules while `full`, and count each.  The answer is whether
the loop ended by its condition, with what has been dropped, newest first. -/
def evictWhile (full : ModuleStore → Bool) (count : ModuleStoreStats → ModuleStoreStats) :
    Nat → ModuleStore × List Eviction → (ModuleStore × List Eviction) × Bool
  | 0, s => (s, true)
  | fuel + 1, s =>
    if full s.1 then
      match s.1.evictOldestLocked with
      | none => (s, false)
      | some (e, s') =>
        evictWhile full count fuel ({ s' with stats := count s'.stats }, ⟨e.crc, s'.lru.map (·.crc)⟩ :: s.2)
    else (s, true)

def overCapacity (s : ModuleStore) : Bool := s.byCRC.size > s.capacity

def overBytes (s : ModuleStore) : Bool := s.liveBytes > s.maxBytes

def countCapacity (st : ModuleStoreStats) : ModuleStoreStats :=
  { st with modulesEvictedCapacity := st.modulesEvictedCapacity + 1 }

def countBytes (st : ModuleStoreStats) : ModuleStoreStats :=
  { st with modulesEvictedBytes := st.modulesEvictedBytes + 1 }

def evictLocked (s : ModuleStore) : ModuleStore × List Eviction :=
  let r := evictWhile overCapacity countCapacity (s.lru.length + 1) (s, [])
  if r.2 then (evictWhile overBytes countBytes (r.1.1.lru.length + 1) r.1).1 else r.1

/-- The first critical section of `Put`: the error of the module, if it is held. -/
def putHeld (s : ModuleStore) (crc : Nat) : Option (ModuleStore × Except String Unit) :=
  (s.byCRC.find? crc).map fun e => (s.touch e, e.parsed.map fun _ => ())

def insert (s : ModuleStore) (crc : Nat) (b : List UInt8) (parsed : Except String Cubin) : ModuleStore :=
  let e : ModuleEntry := {
    crc := crc
    bytes := b
    parsed := parsed
    byIndex := match parsed with
      | .error _ => ∅
      | .ok c => indexFunctions c
    elem := s.elems }
  let st := countClass s.stats (classify parsed)
  { s with
    lru := e :: s.lru
    byCRC := s.byCRC.put crc e
    liveBytes := s.liveBytes + b.length
    elems := s.elems + 1
    stats := { st with modulesStored := st.modulesStored + 1 } }

/-- The second critical section of `Put`, after the module has been parsed. -/
def putParsed (s : ModuleStore) (crc : Nat) (b : List UInt8) (parsed : Except String Cubin) :
    (ModuleStore × List Eviction) × Except String Unit :=
  match s.putHeld crc with
  | some (s', err) => ((s', []), err)
  | none => ((s.insert crc b parsed).evictLocked, parsed.map fun _ => ())

def resolveEntry (e : ModuleEntry) (functionIndex pcOffset : Nat) : Resolution :=
  match e.parsed with
  | .error _ => { status := .noModule }
  | .ok c =>
    if c.lineInfoErr.isSome then { status := .noModule }
    else if !c.hasLineInfo then { status := .noLineInfo }
    else
      match e.byIndex.find? functionIndex with
      | none => { status := .unmapped }
      | some fn =>
        match c.resolve fn pcOffset with
        | none => { status := .unmapped }
        | some (file, line) => { status := .resolved, function := fn, file := file, line := line }

def resolve (s : ModuleStore) (crc functionIndex pcOffset : Nat) : ModuleStore × Resolution :=
  match s.byCRC.find? crc with
  | none => ({ s with stats := s.stats.answered .noModule }, { status := .noModule })
  | some e =>
    let r := resolveEntry e functionIndex pcOffset
    ({ s.touch e with stats := s.stats.answered r.status }, r)

def has (s : ModuleStore) (crc : Nat) : ModuleStore × Bool :=
  match s.byCRC.find? crc with
  | none => (s, false)
  | some e => (s.touch e, true)

def functionName (s : ModuleStore) (crc functionIndex : Nat) : ModuleStore × Option String :=
  match s.byCRC.find? crc with
  | none => (s, none)
  | some e =>
    (s.touch e,
      match e.parsed with
      | .error _ => none
      | .ok _ => e.byIndex.find? functionIndex)

end ModuleStore

end PerfAgent.Gpu
