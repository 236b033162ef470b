import PerfAgent.Flamegraph.FoldPaths
import PerfAgent.Lib.Runes

/-!
# Fusing folded profiles

`Fuse` of `internal/foldedstacks/fuse.go`: several folded profiles as one, each below a root of its own.  The tree of
the fused profile is the trees of the inputs side by side.  Label summaries are left out.
-/

namespace PerfAgent.Flamegraph

open List

open Pprof (ascii)

/-- `Result`, without what `Fuse` neither reads nor adds up, and without the label summaries. -/
structure Profile extends Result where
  unit : Name
  sampleTypeName : Name := []
  sampleTypes : List Name := []
  unsampledLaunchTotal : Int64 := 0
  samples : Nat := 0
  zeroValueSamples : Nat := 0
  emptyStackSamples : Nat := 0
  frames : Nat := 0
  vendorFramesCollapsed : Nat := 0
  addressOnlyFrames : Nat := 0
  inlinedFrames : Nat := 0
  maxDepth : Nat := 0
  warnings : List Name := []
deriving DecidableEq

structure FuseInput where
  result : Option Profile
  label : Name

inductive FuseError where
  | noInputs
  | noResult (i : Nat)
  | noLabel (i : Nat) (sampleTypeName : Name)
  | disagree (got unit : Name)
deriving DecidableEq

/-- `unicode.IsSpace`. -/
def isSpace (r : Nat) : Bool :=
  (9 ≤ r && r ≤ 13) || (0x2000 ≤ r && r ≤ 0x200a) ||
    [0x20, 0x85, 0xa0, 0x1680, 0x2028, 0x2029, 0x202f, 0x205f, 0x3000].contains r

/-- `strings.TrimSpace` leaves nothing. -/
def blank (label : Name) : Bool := (Text.runes label).all fun r => isSpace r.code

/-- The first loop of `Fuse`: the common unit, and the inputs without their pointers. -/
def checkInputs : List FuseInput → Nat → Name → Except FuseError (Name × List (Name × Profile))
  | [], _, unit => .ok (unit, [])
  | x :: inputs, i, unit =>
    match x.result with
    | none => .error (.noResult i)
    | some r =>
      if blank x.label then .error (.noLabel i r.sampleTypeName)
      else if unit ≠ [] ∧ r.unit ≠ unit then .error (.disagree r.unit unit)
      else do
        -- an empty unit is taken for none so far
        let (unit, checked) ← checkInputs inputs (i + 1) (if unit = [] then r.unit else unit)
        return (unit, (x.label, r) :: checked)

def Stack.fuse (label : Name) (s : Stack) : Stack :=
  { s with
    frames := label :: s.frames
    modules := [] :: s.modules
    collapsed := if s.collapsed = [] then [] else false :: s.collapsed }

def addName (names : List Name) (name : Name) : List Name := if names.contains name then names else names ++ [name]

/-- The second loop: what is there so far, and the sample types it adds up. -/
def fuseInput (t : Profile × List Name) (x : Name × Profile) : Profile × List Name :=
  let (out, names) := t
  let (label, r) := x
  ({ unit := out.unit
     sampleTypeName := out.sampleTypeName
     sampleTypes := r.sampleTypes.foldl addName out.sampleTypes
     allStacks := out.allStacks ++ r.allStacks.map (Stack.fuse label)
     total := out.total + r.total
     inexactTotal := out.inexactTotal + r.inexactTotal
     unsampledLaunchTotal := out.unsampledLaunchTotal + r.unsampledLaunchTotal
     samples := out.samples + r.samples
     zeroValueSamples := out.zeroValueSamples + r.zeroValueSamples
     emptyStackSamples := out.emptyStackSamples + r.emptyStackSamples
     frames := out.frames + (r.frames + r.allStacks.length)
     vendorFramesCollapsed := out.vendorFramesCollapsed + r.vendorFramesCollapsed
     addressOnlyFrames := out.addressOnlyFrames + r.addressOnlyFrames
     inlinedFrames := out.inlinedFrames + r.inlinedFrames
     maxDepth := max out.maxDepth (r.maxDepth + 1)
     warnings := out.warnings ++ r.warnings.map (label ++ ascii ": " ++ ·) }, addName names r.sampleTypeName)

def fuse (inputs : List FuseInput) : Except FuseError Profile :=
  if inputs.isEmpty then .error .noInputs
  else do
    let (unit, checked) ← checkInputs inputs 0 []
    let out : Profile := { allStacks := [], total := 0, inexactTotal := 0, unit }
    let (out, names) := checked.foldl fuseInput (out, [])
    let warnings :=
      if out.total ≤ 0 then out.warnings ++ [ascii "every fused input folded to zero; there is nothing to draw"]
      else out.warnings
    return { out with sampleTypeName := List.intercalate (ascii "+") names, warnings }

/-! ## The checks -/

variable {inputs : List FuseInput} {checked : List (Name × Profile)} {unit u : Name} {i : Nat}

end PerfAgent.Flamegraph
