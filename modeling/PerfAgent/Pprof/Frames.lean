import Mathlib.Data.List.Basic
import Mathlib.Algebra.Order.Ring.Nat

/-!
# Frames of a profile

The frames that `pprof/pprof.go` is given: what a symbolizer's frame becomes (`symbolize/toprof.go`),
how the names of perf maps are taken apart, and the name of a frame that has no symbol
(`internal/framename`).  Strings are byte strings, as in the source.
-/

namespace PerfAgent.Pprof

def ascii (s : String) : List UInt8 := s.toList.map fun c => UInt8.ofNat c.toNat

/-! ## Strings -/

/-- `strings.HasPrefix`. -/
def hasPrefix (s p : List UInt8) : Bool := p.isPrefixOf s

/-- `strings.LastIndex`. -/
def lastIndex (sep : List UInt8) : List UInt8 → Option Nat
  | [] => if sep = [] then some 0 else none
  | b :: s =>
    match lastIndex sep s with
    | some i => some (i + 1)
    | none => if hasPrefix (b :: s) sep then some 0 else none

/-- `strconv.ParseUint` to base 10, for 32 bits. -/
def parseUint (s : List UInt8) : Option UInt32 :=
  if s ≠ [] ∧ s.all fun b => 48 ≤ b && b ≤ 57 then
    let n := s.foldl (fun n b => n * 10 + (b.toNat - 48)) 0
    if n < 2 ^ 32 then some (UInt32.ofNat n) else none
  else none

/-- `path.Base`. -/
def pathBase (path : List UInt8) : List UInt8 :=
  if path = [] then ascii "."
  else
    let base := ((path.reverse.dropWhile (· = 47)).takeWhile (· ≠ 47)).reverse
    if base = [] then ascii "/" else base

def hexOf (off : UInt64) : List UInt8 := (Nat.toDigits 16 off.toNat).map fun c => UInt8.ofNat c.toNat

/-- `framename.Format`. -/
def format (modulePath : List UInt8) (off : UInt64) : List UInt8 :=
  if modulePath = [] ∨ hasPrefix modulePath (ascii "[") then []
  else
    let b := pathBase modulePath
    if b = [] ∨ b = ascii "." ∨ b = ascii "/" then [] else b ++ ascii "+0x" ++ hexOf off

/-! ## Frames -/

/-- `Frame`. -/
structure Frame where
  name : List UInt8
  file : List UInt8 := []
  line : UInt32 := 0
  startLine : UInt32 := 0
  module : List UInt8 := []
  address : UInt64 := 0
  buildID : List UInt8 := []
  mapStart : UInt64 := 0
  mapLimit : UInt64 := 0
  mapOff : UInt64 := 0
  isKernel : Bool := false
  unresolved : Bool := false
deriving DecidableEq

/-- `symbolize.FailureReason`. -/
inductive FailureReason where
  | none | unmapped | invalidFileOffset | missingComponent | missingSymbols | unknownAddress | fetchError | noBuildID
deriving DecidableEq

/-- What `ToProfFrames` reads of an inlined `symbolize.Frame`. -/
structure Inlined where
  name : List UInt8
  file : List UInt8
  line : Int
  startLine : Int

/-- `symbolize.Frame`; the chain is from caller to callee. -/
structure SymFrame extends Inlined where
  address : UInt64
  module : List UInt8
  buildID : List UInt8
  inlined : List Inlined
  reason : FailureReason
  mapStart : UInt64
  mapLimit : UInt64
  mapOff : UInt64

def toProfFrames (frames : List SymFrame) : List Frame :=
  frames.flatMap fun f =>
    (f.inlined.reverse.map fun i =>
      { name := i.name, module := f.module, file := i.file, line := UInt32.ofInt i.line,
        startLine := UInt32.ofInt i.startLine, address := f.address }) ++
    [{ name := f.name, module := f.module, file := f.file, line := UInt32.ofInt f.line,
       startLine := UInt32.ofInt f.startLine, address := f.address, buildID := f.buildID, mapStart := f.mapStart,
       mapLimit := f.mapLimit, mapOff := f.mapOff, unresolved := f.reason ≠ .none }]

def toProfFramesKernel (frames : List SymFrame) : List Frame :=
  (toProfFrames frames).map fun f => { f with isKernel := true }

/-! ## Perf maps -/

structure Decoded where
  name : List UInt8
  file : List UInt8 := []
  line : UInt32 := 0

def mergeFrame (base : Frame) (dec : Decoded) : Frame :=
  { base with
    name := if dec.name ≠ [] then dec.name else base.name
    file := if dec.file ≠ [] then dec.file else base.file
    line := if dec.line ≠ 0 then dec.line else base.line }

def decodePython (raw : List UInt8) : Option Decoded :=
  if hasPrefix raw (ascii "py::") then
    match lastIndex (ascii ":/") raw with
    | some idx => some { name := raw.take idx, file := raw.drop (idx + 1) }
    | none => some { name := raw }
  else none

/-- A turn of the loop of `parseTrailingFileLine`: the number behind the last colon. -/
def trailingNumber (file : List UInt8) : Option (List UInt8 × UInt32) :=
  match lastIndex (ascii ":") file with
  | none => none
  | some colon =>
    if colon = file.length - 1 then none
    else (parseUint (file.drop (colon + 1))).map fun n => (file.take colon, n)

def parseTrailingFileLine (s : List UInt8) : List UInt8 × UInt32 :=
  match trailingNumber s with
  | none => (s, 0)
  | some (file, line) =>
    match trailingNumber file with
    | none => (file, line)
    | some (file, line) => (file, line)

def decodeNode (raw : List UInt8) : Option Decoded :=
  let located (p : List UInt8) : Option Decoded :=
    let tail := raw.drop p.length
    match tail.findIdx? (· = 32) with
    | none => some { name := raw }
    | some sp =>
      let loc := parseTrailingFileLine (tail.drop (sp + 1))
      some { name := p ++ tail.take sp, file := loc.1, line := loc.2 }
  if hasPrefix raw (ascii "JS:") then located (ascii "JS:")
  else if hasPrefix raw (ascii "LazyCompile:") then located (ascii "LazyCompile:")
  else if hasPrefix raw (ascii "Function:") then located (ascii "Function:")
  else if hasPrefix raw (ascii "Builtin:") || hasPrefix raw (ascii "Code:") || hasPrefix raw (ascii "Script:") then
    some { name := raw }
  else none

def decodePerfMapFrame (f : Frame) : Frame :=
  if f.file ≠ [] ∨ f.name = [] then f
  else
    match decodePython f.name with
    | some dec => { mergeFrame f dec with address := 0 }
    | none =>
      match decodeNode f.name with
      | some dec => { mergeFrame f dec with address := 0 }
      | none => f

def looksJIT (f : Frame) : Bool :=
  [ascii "py::", ascii "JS:", ascii "LazyCompile:", ascii "Function:", ascii "Builtin:", ascii "Code:",
    ascii "Script:"].any fun p => hasPrefix f.name p

example : (decodePerfMapFrame { name := ascii "JS:~run /srv/a.js:12:7", address := 4096 }) =
    { name := ascii "JS:~run", file := ascii "/srv/a.js", line := 12 } := by decide

example : format (ascii "/usr/lib/libcuda.so.1") 0x1b71c6 = ascii "libcuda.so.1+0x1b71c6" := by decide

end PerfAgent.Pprof
