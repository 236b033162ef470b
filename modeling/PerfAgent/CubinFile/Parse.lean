import PerfAgent.Lib.AssocMap
import PerfAgent.Lib.LittleEndian
import PerfAgent.Lib.Slices
import PerfAgent.Lib.SortSearch
import PerfAgent.Pprof.Frames

/-!
# Reading a cubin

`internal/cubin/cubin.go`.  The relocations of the line section say which function each sequence of the line
program belongs to: the operand of a sequence's `DW_LNE_set_address` is rewritten to the base of a window of
its own, and the window of an address names the sequence when the rows are read back.

What `debug/elf` finds in the bytes and the rows that `debug/dwarf` reads are given.
-/

namespace PerfAgent.CubinFile

open Pprof (ascii)

abbrev Name := List UInt8

/-! ## The file -/

structure Bytes where
  toList : List UInt8
  short : toList.length < 2 ^ 63

/-- `elf.Section`, with what `Data` returns. -/
structure Section where
  name : Name
  type : UInt32
  offset : UInt64 := 0
  fileSize : UInt64 := 0
  data : Option Bytes

/-- `elf.Symbol`; `f.Symbols` leaves out the one at index 0. -/
structure Symbol where
  name : Name
  info : UInt8
  shndx : UInt16 := 0
  size : UInt64

/-- `elf.File` -/
structure File where
  machine : UInt16
  elfClass : UInt8
  encoding : UInt8
  symbols : Option (List Symbol)
  sections : List Section

def emCUDA : UInt16 := 190
def elfClass64 : UInt8 := 2
def elfData2LSB : UInt8 := 1
def shtNobits : UInt32 := 8
def shtRel : UInt32 := 9
def sttFunc : UInt8 := 2

/-- `f.Section` -/
def File.findSection (f : File) (name : Name) : Option Section := f.sections.find? fun s => s.name = name

/-- How `debug/dwarf` refuses a line section. -/
inductive DwarfErr where
  | constructing
  | readingUnit
  | emptyUnit
  | openingReader
  | noLineTable
deriving DecidableEq

/-- `dwarf.LineEntry` -/
structure LineEntry where
  address : UInt64
  file : Option Name
  line : Int
  endSequence : Bool

/-- The libraries: `elf.NewFile`, and the rows of a line section up to the end of the table or to where the
reader stops. -/
structure Libraries where
  newFile : List UInt8 → Option File
  readLines : List UInt8 → Except DwarfErr (List LineEntry)

inductive Err where
  | notELF
  | notCUDA (machine : UInt16)
  | unsupportedEncoding (elfClass encoding : UInt8)
  | readingSymtab
  | tooManyFunctions
  | duplicateFunc (name : Name)
  | sectionPastEnd (name : Name)
  | readingSection (name : Name)
  | relAbsent
  | relType (type : UInt32)
  | relSize (len : Nat)
  | relCap (n : Nat)
  | relOutside (rOffset : UInt64)
  | relNoSetAddress (rOffset : UInt64)
  | relNonZero (rOffset address : UInt64)
  | relBindsNone
  | dwarf (e : DwarfErr)
  | rowOutside (address : UInt64)
  | rowPastFunction (pcOffset : UInt64) (fn : Name) (size : UInt64)
  /-- `ErrPanic` -/
  | errPanic
deriving DecidableEq

def maxFunctions : Nat := 65536

def seqShift : UInt64 := 40

/-! ## Bytes -/

section Access

variable (l : List UInt8)

/-- `l[lo:hi]`; the capacity is the length here. -/
def sliceAt (lo hi : Nat) : Outcome Err (List UInt8) :=
  if lo ≤ hi ∧ hi ≤ l.length then .ok ((l.take hi).drop lo) else .panic

/-- `binary.LittleEndian.Uint64(l[lo:])` -/
def uint64At (lo : Nat) : Outcome Err UInt64 := do
  let s ← sliceAt l lo l.length
  if 8 ≤ s.length then .ok (UInt64.ofNat (leAt s 0 8)) else .panic

def patch (lo : Nat) (v : UInt64) : List UInt8 := l.take lo ++ leBytes 8 v.toNat ++ l.drop (lo + 8)

/-- `binary.LittleEndian.PutUint64(l[lo:], v)` -/
def putUint64At (lo : Nat) (v : UInt64) : Outcome Err (List UInt8) := do
  let s ← sliceAt l lo l.length
  if 8 ≤ s.length then .ok (patch l lo v) else .panic

end Access

def readSection (f : File) (b : List UInt8) (name : Name) : Outcome Err (List UInt8) :=
  match f.findSection name with
  | none => .ok []
  | some s =>
    if s.type = shtNobits then .ok []
    else
      let stop := s.offset + s.fileSize
      if stop < s.offset ∨ b.length < stop.toNat then .error (.sectionPastEnd name)
      else
        match s.data with
        | none => .error (.readingSection name)
        | some d => .ok d.toList

/-! ## Relocations -/

def setAddrPrologue : List UInt8 := [0x00, 0x09, 0x02]

structure Sequence where
  fn : Name
  base : UInt64
deriving DecidableEq

def windowBase (idx : Nat) : UInt64 := UInt64.ofNat (idx + 1) <<< seqShift

/-- One relocation against a device function: the operand is found where it says and is rewritten. -/
def relocate (line : List UInt8) (rOffset base : UInt64) : Outcome Err (List UInt8) :=
  if rOffset < 3 ∨ UInt64.ofNat line.length < rOffset + 8 then .error (.relOutside rOffset)
  else do
    let before ← sliceAt line (rOffset - 3).toNat rOffset.toNat
    if before ≠ setAddrPrologue then .error (.relNoSetAddress rOffset)
    else do
      let got ← uint64At line rOffset.toNat
      if got ≠ 0 then .error (.relNonZero rOffset got) else putUint64At line rOffset.toNat base

def relSize : Nat := 16

/-- The loop over the relocations that are left, from `off` on. -/
def relocLoop (funcBySym : AssocMap Nat Name) (rel : List UInt8) :
    Nat → Nat → List UInt8 → List Sequence → Outcome Err (List UInt8 × List Sequence)
  | 0, _, line, seqs => .ok (line, seqs)
  | n + 1, off, line, seqs => do
    let rOffset ← uint64At rel off
    let rInfo ← uint64At rel (off + 8)
    match funcBySym.find? (rInfo >>> 32).toNat with
    -- nothing to bind
    | none => relocLoop funcBySym rel n (off + relSize) line seqs
    | some fn => do
      let base := windowBase seqs.length
      let line ← relocate line rOffset base
      relocLoop funcBySym rel n (off + relSize) line (seqs ++ [{ fn, base }])

/-- The line section with its operands rewritten, and the sequences in the order of their bases. -/
def relocSequences (f : File) (b line : List UInt8) (funcBySym : AssocMap Nat Name) :
    Outcome Err (List UInt8 × List Sequence) :=
  match f.findSection (ascii ".rel.debug_line") with
  | none => .error .relAbsent
  | some rs =>
    if rs.type ≠ shtRel then .error (.relType rs.type)
    else do
      let rel ← readSection f b (ascii ".rel.debug_line")
      if rel.length % relSize ≠ 0 then .error (.relSize rel.length)
      else if maxFunctions < rel.length / relSize then .error (.relCap (rel.length / relSize))
      else do
        let (line, seqs) ← relocLoop funcBySym rel (rel.length / relSize) 0 line []
        if seqs = [] then .error .relBindsNone else .ok (line, seqs)

/-! ## Rows -/

structure Row where
  pcOffset : UInt64
  line : UInt32
  file : Name
  endSequence : Bool
deriving DecidableEq

def fileRow (size : AssocMap Name UInt64) (seqs : List Sequence) (ent : LineEntry) : Outcome Err (Name × Row) :=
  let idx : Int := (ent.address >>> seqShift).toNat - 1
  if idx < 0 ∨ seqs.length ≤ idx then .error (.rowOutside ent.address)
  else
    match seqs[idx.toNat]? with
    | none => .panic
    | some seq =>
      let pcOffset := ent.address - seq.base
      let sz := (size.find? seq.fn).getD 0
      if 0 < sz ∧ sz < pcOffset then .error (.rowPastFunction pcOffset seq.fn sz)
      else
        .ok (seq.fn,
          { pcOffset, line := UInt32.ofInt ent.line, file := ent.file.getD [], endSequence := ent.endSequence })

def fileRows (size : AssocMap Name UInt64) (seqs : List Sequence) : List LineEntry → Outcome Err (List (Name × Row))
  | [] => .ok []
  | ent :: ents => do
    let r ← fileRow size seqs ent
    let rs ← fileRows size seqs ents
    .ok (r :: rs)

/-- `rows[fn]`, in the order of the offsets; rows at one offset stay as they were filed. -/
def tableOf (rows : List (Name × Row)) (fn : Name) : List Row :=
  ((rows.filter fun r => r.1 = fn).map Prod.snd).mergeSort fun r r' => r.pcOffset ≤ r'.pcOffset

def buildLineTable (libs : Libraries) (size : AssocMap Name UInt64) (f : File) (b line : List UInt8)
    (funcBySym : AssocMap Nat Name) : Outcome Err (List (Name × Row)) := do
  let (patched, seqs) ← relocSequences f b line funcBySym
  match libs.readLines patched with
  | .error e => .error (.dwarf e)
  | .ok ents => fileRows size seqs ents

/-! ## The module -/

structure Function where
  name : Name
  symIndex : Nat
  sectionName : Name
  size : UInt64
  hasLineInfo : Bool := false
deriving DecidableEq

/-- `rows` has the lists of all functions. -/
structure Cubin where
  funcs : List Function
  rows : List (Name × Row) := []
  size : AssocMap Name UInt64
  hasDebugLine : Bool := false
  lineErr : Option Err := none

structure Admitted where
  funcs : List Function := []
  funcBySym : AssocMap Nat Name := ∅
  size : AssocMap Name UInt64 := ∅

def Admitted.symbol (f : File) (a : Admitted) (i : Nat) (s : Symbol) : Outcome Err Admitted :=
  if s.info &&& 0xf ≠ sttFunc ∨ s.name = [] then .ok a
  else if maxFunctions ≤ a.funcs.length then .error .tooManyFunctions
  else if (a.size.find? s.name).isSome then .error (.duplicateFunc s.name)
  else
    .ok
      { funcs := a.funcs ++
          [{ name := s.name, symIndex := i + 1, sectionName := (f.sections[s.shndx.toNat]?.map Section.name).getD []
             size := s.size }]
        funcBySym := a.funcBySym.put (i + 1) s.name
        size := a.size.put s.name s.size }

def admitSymbols (f : File) : Nat → List Symbol → Admitted → Outcome Err Admitted
  | _, [], a => .ok a
  | i, s :: ss, a => do
    let a ← a.symbol f i s
    admitSymbols f (i + 1) ss a

def withLines (libs : Libraries) (f : File) (b : List UInt8) (a : Admitted) : Outcome Err Cubin := do
  let c : Cubin := { funcs := a.funcs, size := a.size }
  let line ← readSection f b (ascii ".debug_line")
  if line = [] then .ok c
  else
    match buildLineTable libs a.size f b line a.funcBySym with
    | .ok rows =>
      .ok
        { c with
          funcs := c.funcs.map fun fn => { fn with hasLineInfo := tableOf rows fn.name ≠ [] }
          rows, hasDebugLine := true }
    -- the functions are still good
    | .error e => .ok { c with hasDebugLine := true, lineErr := some e }
    | .panic => .panic
    | .outOfFuel => .outOfFuel

def parseFile (libs : Libraries) (b : List UInt8) : Outcome Err Cubin :=
  match libs.newFile b with
  | none => .error .notELF
  | some f =>
    if f.machine ≠ emCUDA then .error (.notCUDA f.machine)
    else if f.elfClass ≠ elfClass64 ∨ f.encoding ≠ elfData2LSB then
      .error (.unsupportedEncoding f.elfClass f.encoding)
    else
      match f.symbols with
      | none => .error .readingSymtab
      | some syms => do
        let a ← admitSymbols f 0 syms {}
        withLines libs f b a

/-- `Parse`, with its `recover`. -/
def parse (libs : Libraries) (b : List UInt8) : Except Err Cubin :=
  match parseFile libs b with
  | .ok c => .ok c
  | .error e => .error e
  | .panic => .error .errPanic
  | .outOfFuel => .error .errPanic

/-- `Resolve`: the file and the line. -/
def Cubin.resolve (c : Cubin) (fn : Name) (pcOffset : UInt64) : Option (Name × UInt32) :=
  let rows := tableOf c.rows fn
  if rows = [] then none
  else
    let i := sortSearch rows.length fun i => rows[i]?.any fun r => pcOffset < r.pcOffset
    if i = 0 then none
    else
      match rows[i - 1]? with
      | none => none
      | some r =>
        if r.endSequence then none
        else
          let sz := (c.size.find? fn).getD 0
          if 0 < sz ∧ sz ≤ pcOffset then none else some (r.file, r.line)

end PerfAgent.CubinFile
