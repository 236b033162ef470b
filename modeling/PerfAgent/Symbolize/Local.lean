import PerfAgent.Pprof.Frames
import PerfAgent.Procmap.Resolver

/-!
# The local symbolizer

`LocalSymbolizer` of `symbolize/local.go` with the start lines of `symbolize/startline.go`, and the address mapper
of `unwind/procmap/addressmapper.go`.  What blazesym answers is a parameter.  Counters, logs and closing are left
out.
-/

namespace PerfAgent.Symbolize

open Pprof (ascii hasPrefix hexOf FailureReason)

abbrev Name := List UInt8

/-! ## Blazesym -/

/-- `blazesym.CodeInfo`. -/
structure CodeInfo where
  file : Name := []
  line : Nat
  column : Nat := 0
deriving DecidableEq

structure InlinedFn where
  name : Name
  codeInfo : Option CodeInfo
deriving DecidableEq

/-- `blazesym.Sym`; `offset` is the distance from the start of the symbol. -/
structure Sym where
  name : Name := []
  module : Name := []
  offset : UInt64 := 0
  codeInfo : Option CodeInfo := none
  inlined : List InlinedFn := []
deriving DecidableEq

structure Blazesym where
  process : UInt32 → UInt64 → Sym
  elf : Name → UInt64 → Sym

/-! ## Frames -/

/-- `Frame`; the frames that are inlined have a name and a place only. -/
structure Frame where
  address : UInt64
  name : Name
  module : Name := []
  buildID : Name := []
  file : Name := []
  line : Nat := 0
  column : Nat := 0
  startLine : Nat := 0
  offset : UInt64 := 0
  inlined : List InlinedFn := []
  reason : FailureReason := .none
  mapStart : UInt64 := 0
  mapLimit : UInt64 := 0
  mapOff : UInt64 := 0
deriving DecidableEq

def hexName (addr : UInt64) : Name := ascii "0x" ++ hexOf addr

def rawUserAddrFrames (ips : List UInt64) : List Frame :=
  ips.map fun ip => { address := ip, name := hexName ip, reason := .missingSymbols }

def fromBlazesymSym (s : Sym) (addr : UInt64) : Frame where
  address := addr
  name := if s.name = [] then hexName addr else s.name
  module := s.module
  offset := s.offset
  reason := if s.name = [] then .missingSymbols else .none
  file := (s.codeInfo.map CodeInfo.file).getD []
  line := (s.codeInfo.map CodeInfo.line).getD 0
  column := (s.codeInfo.map CodeInfo.column).getD 0
  inlined := s.inlined

/-! ## Modules -/

/-- `ModuleIndex`. -/
abbrev ModuleIndex := UInt32 → UInt64 → Option Procmap.Mapping

/-- One frame of `attachModules`. -/
def attachModule (idx : ModuleIndex) (pid : UInt32) (f : Frame) : Frame :=
  if f.reason = .none ∨ f.module ≠ [] then f
  else
    match idx pid f.address with
    | none => f
    | some m =>
      if m.path = [] then f
      else
        { f with
          module := m.path
          mapStart := m.start
          mapLimit := m.limit
          mapOff := m.offset
          buildID := if f.buildID = [] then m.buildID else f.buildID }

def attachModules (idx : Option ModuleIndex) (pid : UInt32) (frames : List Frame) : List Frame :=
  match idx with
  | none => frames
  | some idx => frames.map (attachModule idx pid)

/-- `ptLoad`: an executable segment. -/
structure PtLoad where
  off : UInt64
  vaddr : UInt64
  filesz : UInt64
deriving DecidableEq

def pageMask : UInt64 := 4095

variable (loads : List PtLoad)

def fileOffsetToVirtualAddress (off : UInt64) : Option UInt64 :=
  (loads.find? fun p => p.off &&& ~~~pageMask ≤ off && off < p.off + p.filesz).map fun p => p.vaddr + (off - p.off)

structure Surroundings where
  modules : Option ModuleIndex := none
  /-- `nvsym.Store.Cached`, if the store is configured. -/
  symbols : Option (Name → Name → Option Name) := none
  /-- What `NewAddressMapper` reads of a file. -/
  loads : Name → Option (List PtLoad) := fun _ => none
  /-- `SymbolizeElfVirtOffsets` fails on a file. -/
  elfFails : Name → Bool := fun _ => false
  /-- The first batch fails, and the one for the start lines. -/
  batchFails : Bool := false
  linesFail : Bool := false

/-! ## Retries -/

/-- A frame that `retryAgainstModuleFiles` asks about again. -/
def Frame.unnamedIn (f : Frame) (mod : Name) : Bool :=
  f.reason ≠ .none && f.module = mod && f.module ≠ [] && f.mapStart ≠ 0 && !hasPrefix f.module (ascii "[")

def Frame.virtualAddress (f : Frame) : Option UInt64 :=
  fileOffsetToVirtualAddress loads (f.address - f.mapStart + f.mapOff)

variable (bz : Blazesym)

def nameFrom (path : Name) (loads : List PtLoad) (mod : Name) (f : Frame) : Frame :=
  if f.unnamedIn mod then
    match f.virtualAddress loads with
    | none => f
    | some va =>
      if (bz.elf path va).name = [] then f
      else { f with name := (bz.elf path va).name, offset := va, reason := .none }
  else f

def retryAgainstSymbolServer (env : Surroundings) (loads : List PtLoad) (mod : Name) (frames : List Frame) :
    List Frame :=
  match env.symbols, frames.find? fun f => f.unnamedIn mod && (f.virtualAddress loads).isSome with
  | some cached, some f =>
    if f.buildID = [] then frames
    else
      match cached mod f.buildID with
      | none => frames
      | some path => if env.elfFails path then frames else frames.map (nameFrom bz path loads mod)
  | _, _ => frames

def retryModule (env : Surroundings) (frames : List Frame) (mod : Name) : List Frame :=
  match env.loads mod with
  | none => frames
  | some loads =>
    if env.elfFails mod then frames
    else retryAgainstSymbolServer bz env loads mod (frames.map (nameFrom bz mod loads mod))

/-- The modules are asked in any order in the source; each has frames of its own. -/
def retryAgainstModuleFiles (env : Surroundings) (frames : List Frame) : List Frame :=
  (frames.map Frame.module).dedup.foldl (retryModule bz env) frames

/-! ## Start lines -/

structure StartLineKey where
  module : Name
  symOff : UInt64
deriving DecidableEq

abbrev StartLineCache := StartLineKey → Option Nat

structure Want where
  key : StartLineKey
  addr : UInt64
deriving DecidableEq

def Frame.entry (f : Frame) : UInt64 := f.address - f.offset

def Frame.startLineKey (f : Frame) : StartLineKey := { module := f.module, symOff := f.entry - f.mapStart }

/-- One round of the first loop of `fillStartLines`. -/
def scanFrame (cache : StartLineCache) (f : Frame) : StartLineCache × Frame × Option Want :=
  if f.reason ≠ .none ∨ f.name = [] then (cache, f, none)
  else if f.offset > f.address then (cache, f, none)
  else
    match cache f.startLineKey with
    | some line => (cache, { f with startLine := line }, none)
    | none =>
      if f.offset = 0 then
        (Function.update cache f.startLineKey (some f.line), { f with startLine := f.line }, none)
      else (cache, f, some { key := f.startLineKey, addr := f.entry })

def scanFrames : StartLineCache → List Frame → StartLineCache × List (Frame × Option Want)
  | cache, [] => (cache, [])
  | cache, f :: frames =>
    let (cache, f, want) := scanFrame cache f
    let (cache, rest) := scanFrames cache frames
    (cache, (f, want) :: rest)

/-- One round of the last loop: the answer to what a frame has waited for. -/
def takeLine (pid : UInt32) (cache : StartLineCache) (f : Frame × Option Want) : StartLineCache × Frame :=
  match f.2 with
  | none => (cache, f.1)
  | some w =>
    let line := ((bz.process pid w.addr).codeInfo.map CodeInfo.line).getD 0
    if line = 0 then (cache, f.1)
    else (Function.update cache w.key (some line), { f.1 with startLine := line })

def takeLines (bz : Blazesym) (pid : UInt32) : StartLineCache → List (Frame × Option Want) → StartLineCache × List Frame
  | cache, [] => (cache, [])
  | cache, f :: frames =>
    let (cache, f) := takeLine bz pid cache f
    let (cache, rest) := takeLines bz pid cache frames
    (cache, f :: rest)

def fillStartLines (env : Surroundings) (pid : UInt32) (cache : StartLineCache) (frames : List Frame) :
    StartLineCache × List Frame :=
  let (cache, scanned) := scanFrames cache frames
  if env.linesFail then (cache, scanned.map Prod.fst) else takeLines bz pid cache scanned

/-! ## The symbolizer -/

/-- `SymbolizeProcess`: the cache of the symbolizer afterwards, and the frames. -/
def symbolizeProcess (env : Surroundings) (cache : StartLineCache) (pid : UInt32) (ips : List UInt64) :
    StartLineCache × List Frame :=
  if ips = [] then (cache, [])
  else if env.batchFails then
    (cache, retryAgainstModuleFiles bz env (attachModules env.modules pid (rawUserAddrFrames ips)))
  else
    let frames := attachModules env.modules pid (ips.map fun ip => fromBlazesymSym (bz.process pid ip) ip)
    fillStartLines bz env pid cache (retryAgainstModuleFiles bz env frames)

structure SymbolizeCall where
  pid : UInt32
  ips : List UInt64
  env : Surroundings := {}

def symbolizeCalls (bz : Blazesym) : StartLineCache → List SymbolizeCall → StartLineCache × List (List Frame)
  | cache, [] => (cache, [])
  | cache, c :: cs =>
    let (cache, frames) := symbolizeProcess bz c.env cache c.pid c.ips
    let (cache, rest) := symbolizeCalls bz cache cs
    (cache, frames :: rest)

end PerfAgent.Symbolize
