import PerfAgent.Pprof.Frames
import PerfAgent.Procmap.Resolver
import PerfAgent.Lib.LittleEndian

/-!
# The pprof builder

`ProfileBuilder` of `pprof/pprof.go`.  Mappings, locations and functions are interned; a location is
found again under the mapping and offset of its frame, or, where no mapping is known, under the name.
What is interned is not changed any more, except for the flags of a mapping, so a pointer to it is the
thing itself here and the flags are kept beside.
-/

namespace PerfAgent.Pprof

/-! ## The profile -/

/-- `procmap.Mapping`. -/
abbrev ProcMapping := Procmap.Mapping

/-- `profile.Mapping`, without its flags. -/
structure Mapping where
  id : Nat
  start : UInt64 := 0
  limit : UInt64 := 0
  offset : UInt64 := 0
  file : List UInt8 := []
  buildID : List UInt8 := []
deriving DecidableEq

/-- The flags of a `profile.Mapping`. -/
structure MappingFlags where
  hasFunctions : Bool := false
  hasFilenames : Bool := false
  hasLineNumbers : Bool := false
deriving DecidableEq

/-- `profile.Function`. -/
structure Function where
  id : Nat
  name : List UInt8
  filename : List UInt8
  startLine : Int
deriving DecidableEq

/-- `profile.Location`, with its one line. -/
structure Location where
  id : Nat
  mapping : Mapping
  address : UInt64 := 0
  function : Function
  line : Int
deriving DecidableEq

/-- `mappingKey`. -/
structure MappingKey where
  path : List UInt8
  start : UInt64
  limit : UInt64
  off : UInt64
  buildID : List UInt8
deriving DecidableEq

variable (m : ProcMapping)

def ProcMapping.key : MappingKey :=
  { path := m.path, start := m.start, limit := m.limit, off := m.offset, buildID := m.buildID }

/-- `locationKey` and `locationFallbackKey`. -/
inductive LocationKey where
  | addr (mappingID : Nat) (address : UInt64)
  | fallback (name file module : List UInt8) (line : UInt32)
deriving DecidableEq

/-- `functionKey`. -/
structure FunctionKey where
  mappingID : Nat
  name : List UInt8
deriving DecidableEq

def kernelSentinel : ProcMapping := { path := ascii "[kernel]" }

def jitSentinel : ProcMapping := { path := ascii "[jit]" }

def defaultMapping : Mapping := { id := 1 }

/-- What the builder has interned: the maps of the builder and the lists of the profile. -/
structure Interned where
  mappings : AssocMap MappingKey Mapping := ∅
  locations : AssocMap LocationKey Location := ∅
  functions : AssocMap FunctionKey Function := ∅
  mapping : List Mapping := [defaultMapping]
  flags : AssocMap Nat MappingFlags := ∅
  location : List Location := []
  function : List Function := []

/-! ## Interning -/

namespace Interned

variable (t : Interned)

def updateMappingFlags (id : Nat) (f : Frame) : Interned :=
  let old := (t.flags.find? id).getD {}
  let new : MappingFlags :=
    { hasFunctions := old.hasFunctions || (f.name ≠ [] && !f.unresolved)
      hasFilenames := old.hasFilenames || f.file ≠ []
      hasLineNumbers := old.hasLineNumbers || 0 < f.line }
  { t with flags := t.flags.put id new }

def addMapping (frame : Frame) : Interned × Mapping :=
  match t.mappings.find? m.key with
  | some existing => (t.updateMappingFlags existing.id frame, existing)
  | none =>
    let mapping : Mapping :=
      { id := t.mapping.length + 1, start := m.start, limit := m.limit, offset := m.offset, file := m.path,
        buildID := m.buildID }
    let t := t.updateMappingFlags mapping.id frame
    ({ t with mapping := t.mapping ++ [mapping], mappings := t.mappings.put m.key mapping }, mapping)

def addFunction (frame : Frame) (mappingID : Nat) : Interned × Function :=
  match t.functions.find? { mappingID := mappingID, name := frame.name } with
  | some f => (t, f)
  | none =>
    let f : Function :=
      { id := t.function.length + 1, name := frame.name, filename := frame.file, startLine := frame.startLine.toNat }
    ({ t with
        function := t.function ++ [f]
        functions := t.functions.put { mappingID := mappingID, name := frame.name } f }, f)

/-- The location of a frame, new under `key` if there is none. -/
def addLocationUnder (key : LocationKey) (mapping : Mapping) (address : UInt64) (frame : Frame) : Interned × Location :=
  match t.locations.find? key with
  | some loc => (t, loc)
  | none =>
    let id := t.location.length + 1
    let (t, function) := t.addFunction frame mapping.id
    let loc : Location :=
      { id := id, mapping := mapping, address := address, function := function, line := frame.line.toNat }
    ({ t with location := t.location ++ [loc], locations := t.locations.put key loc }, loc)

end Interned

namespace Frame

def offset (frame : Frame) : UInt64 :=
  if frame.mapStart ≠ 0 then frame.address - frame.mapStart + frame.mapOff else frame.address

/-- A frame that has no symbol is named after the file and the offset. -/
def rename (file : List UInt8) (frame : Frame) : Frame :=
  if frame.unresolved ∧ format file frame.offset ≠ [] then { frame with name := format file frame.offset } else frame

def fallbackKey (frame : Frame) : LocationKey := .fallback frame.name frame.file frame.module frame.line

end Frame

namespace Interned

variable (t : Interned)

def addLocationByAddr (mapping : Mapping) (frame : Frame) : Interned × Location :=
  t.addLocationUnder (.addr mapping.id frame.offset) mapping frame.offset (frame.rename mapping.file)

def addLocationByFallback (mapping : Mapping) (frame : Frame) : Interned × Location :=
  t.addLocationUnder frame.fallbackKey mapping 0 frame

end Interned

/-- `frameMapping`. -/
def frameMapping (frame : Frame) : Option ProcMapping :=
  if frame.module = [] ∨ frame.address = 0 ∨ frame.mapLimit ≤ frame.mapStart then none
  else if frame.address < frame.mapStart ∨ frame.mapLimit ≤ frame.address then none
  else some
    { path := frame.module, start := frame.mapStart, limit := frame.mapLimit, offset := frame.mapOff,
      buildID := frame.buildID }

/-- The answers of a `procmap.Resolver`. -/
abbrev Resolver := UInt32 → UInt64 → Option ProcMapping

/-- Where `addLocation` sends a frame. -/
inductive Route where
  | byAddr (m : ProcMapping) (frame : Frame)
  | byFallback (m : Option ProcMapping) (frame : Frame)

variable (resolver : Option Resolver)

/-- The branches of `addLocation`. -/
def route (frame : Frame) (pid : UInt32) : Route :=
  if frame.isKernel then .byAddr kernelSentinel frame
  else if frame.address = 0 ∧ looksJIT frame then .byFallback (some jitSentinel) frame
  else
    match if frame.address ≠ 0 then resolver.bind fun lookup => lookup pid frame.address else none with
    | some m =>
      .byAddr m { frame with mapStart := m.start, mapLimit := m.limit, mapOff := m.offset, buildID := m.buildID }
    | none =>
      match frameMapping frame with
      | some m => .byAddr m frame
      | none => .byFallback none frame

def addLocation (t : Interned) (frame : Frame) (pid : UInt32) : Interned × Location :=
  match route resolver (decodePerfMapFrame frame) pid with
  | .byAddr m frame =>
    let (t, mapping) := t.addMapping m frame
    t.addLocationByAddr mapping frame
  | .byFallback (some m) frame =>
    let (t, mapping) := t.addMapping m frame
    t.addLocationByFallback mapping frame
  | .byFallback none frame => t.addLocationByFallback defaultMapping frame

/-! ## Samples -/

/-- `SampleType`. -/
inductive SampleType where
  | cpu | mem | offCpu | gpu
deriving DecidableEq

/-- `ProfileSample`; `aggregated` is its `Aggregation`. -/
structure ProfileSample where
  pid : UInt32
  sampleType : SampleType
  aggregated : Bool
  stack : List Frame
  value : UInt64
  value2 : UInt64 := 0
  labels : AssocMap (List UInt8) (List UInt8) := ∅

/-- `profile.Sample`. -/
structure Sample where
  location : List Location
  value : List Int64
  label : AssocMap (List UInt8) (List UInt8)

structure Options where
  resolver : Option Resolver
  labels : AssocMap (List UInt8) (List UInt8) := ∅
  period : Int64 := 1
  /-- `xxhash.Sum64`. -/
  sum64 : List UInt8 → UInt64

/-- `ProfileBuilder`. -/
structure ProfileBuilder where
  interned : Interned := {}
  sampleHashToSample : AssocMap UInt64 Nat := ∅
  sample : List Sample := []

namespace Options

variable (opt : Options)

def hashLabels (seed : UInt64) (labels : AssocMap (List UInt8) (List UInt8)) : UInt64 :=
  let sorted := labels.entries.mergeSort fun a b => decide (a.1 ≤ b.1)
  opt.sum64 (leBytes 8 seed.toNat ++ sorted.flatMap fun e => e.1 ++ [0] ++ e.2 ++ [0])

def sampleHash (locationIDs : List Nat) (labels : AssocMap (List UInt8) (List UInt8)) : UInt64 :=
  let h := opt.sum64 (leWords 8 locationIDs)
  if 0 < labels.size then opt.hashLabels h labels else h

def newSample (s : ProfileSample) (location : List Location) : Sample where
  location := location
  value := if s.sampleType = .mem then [0, 0] else [0]
  label := s.labels.entries.foldl (fun l e => l.put e.1 e.2) opt.labels

def addValue (s : ProfileSample) (sample : Sample) : Sample :=
  match s.sampleType with
  | .cpu => { sample with value := sample.value.modify 0 (· + s.value.toInt64 * opt.period) }
  | .offCpu | .gpu => { sample with value := sample.value.modify 0 (· + s.value.toInt64) }
  | .mem =>
    { sample with value := (sample.value.modify 0 (· + s.value.toInt64)).modify 1 (· + s.value2.toInt64) }

end Options

def addStack (resolver : Option Resolver) (pid : UInt32) : Interned → List Frame → Interned × List Location
  | t, [] => (t, [])
  | t, f :: stack =>
    let (t, loc) := addLocation resolver t f pid
    let (t, locs) := addStack resolver pid t stack
    (t, loc :: locs)

namespace ProfileBuilder

variable (opt : Options) (p : ProfileBuilder)

def createSample (s : ProfileSample) : ProfileBuilder × Nat :=
  let (interned, locations) := addStack opt.resolver s.pid p.interned s.stack
  ({ p with interned := interned, sample := p.sample ++ [opt.addValue s (opt.newSample s locations)] }, p.sample.length)

def createSampleOrAddValue (s : ProfileSample) : ProfileBuilder × Nat :=
  let (interned, tmpLocations) := addStack opt.resolver s.pid p.interned s.stack
  let h := opt.sampleHash (tmpLocations.map Location.id) s.labels
  match p.sampleHashToSample.find? h with
  | some index => ({ p with interned := interned, sample := p.sample.modify index (opt.addValue s) }, index)
  | none =>
    ({ interned := interned
       sampleHashToSample := p.sampleHashToSample.put h p.sample.length
       sample := p.sample ++ [opt.addValue s (opt.newSample s tmpLocations)] }, p.sample.length)

/-- `AddSampleIndexed`, in one builder. -/
def addSample (s : ProfileSample) : ProfileBuilder × Nat :=
  if s.aggregated then p.createSample opt s else p.createSampleOrAddValue opt s

/-- Samples that are added one after the other, and where each went. -/
def addSamples : ProfileBuilder → List ProfileSample → ProfileBuilder × List Nat
  | p, [] => (p, [])
  | p, s :: ss =>
    let (p, index) := p.addSample opt s
    let (p, indices) := addSamples p ss
    (p, index :: indices)

end ProfileBuilder

end PerfAgent.Pprof
