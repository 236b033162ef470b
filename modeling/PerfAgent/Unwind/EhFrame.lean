import PerfAgent.Unwind.Interpreter

/-!
# The records of `.eh_frame`

`unwind/ehcompile/cie.go`, and the callback of `Compile` in `ehcompile.go`.  The section is a
list of records, each with its length in front: a CIE, or an FDE that names its CIE by the
distance to it.  The sorting of the rows at the end of `Compile` is left out.
-/

namespace PerfAgent.Unwind

def uint32At (b : Slice UInt8) (lo : Int) : Go Nat := do
  littleEndian 4 (← b.sub lo (lo + 4))

def startsWithZ (augmentation : List UInt8) : Bool := augmentation.head? == some 122

/-- The position after `augLen` bytes of augmentation data. -/
def afterAugmentation (pos : Int) (augLen : UInt64) : Int := wrapInt (pos + augLen.toInt64.toInt)

/-! ## CIEs -/

/-- The rest of `parseAugmentationData`, from a position in the augmentation data on. -/
def parseAugmentationFrom (data : Slice UInt8) : List UInt8 → Int → CIE → Go CIE
  | [], _, c => .ok c
  | ch :: chars, pos, c =>
    -- 'R'
    if ch = 82 then
      if pos ≥ data.len then .error .truncated
      else do
        let enc ← data.index pos
        parseAugmentationFrom data chars (pos + 1) { c with fdePointerEnc := enc }
    -- 'S'
    else if ch = 83 then parseAugmentationFrom data chars pos { c with hasSignalFrame := true }
    -- 'P'
    else if ch = 80 then
      if pos ≥ data.len then .error .truncated
      else do
        let enc ← data.index pos
        let (_, n) ← decodeEHPointer (← data.suffix (pos + 1)) enc 0 0
        parseAugmentationFrom data chars (pos + 1 + n) c
    -- 'L'
    else if ch = 76 then
      if pos ≥ data.len then .error .truncated else parseAugmentationFrom data chars (pos + 1) c
    -- 'B'
    else if ch = 66 then parseAugmentationFrom data chars pos c
    else .error (.unknownAugmentationChar ch)

def CIE.parseAugmentationData (c : CIE) (augChars : List UInt8) (data : Slice UInt8) : Go CIE :=
  parseAugmentationFrom data augChars 0 c

def recordBody (raw : Slice UInt8) (length : Nat) : Go (Slice UInt8) :=
  raw.sub 4 (((4 + length) % 2 ^ 32 : Nat) : Int)

/-- The fixed part of a CIE, and where in its body the rest starts. -/
structure CIEHeader where
  cie : CIE
  body : Slice UInt8
  pos : Int

/-- `parseCIE` on the body of the record, up to the return-address column. -/
def parseCIEBody (body : Slice UInt8) : Go CIEHeader := do
  if body.len < 9 then .error .truncated
  else
    let id ← uint32At body 0
    if id ≠ 0 then .error .nonZeroCIEId
    else
      let version ← body.index 4
      if version ≠ 1 ∧ version ≠ 3 then .error (.unsupportedVersion version)
      else
        let rest ← body.suffix 5
        match rest.toList.findIdx? (· == 0) with
        | none => .error .truncated
        | some nul =>
          let augmentation ← body.sub 5 (5 + nul)
          let (codeAlign, pos) ← uleb128At body (5 + nul + 1)
          let (dataAlign, pos) ← sleb128At body pos
          let (raColumn, pos) ← uleb128At body pos
          -- the instructions are set at the end
          let c : CIE :=
            { version := version
              augmentation := augmentation.toList
              codeAlign := codeAlign
              dataAlign := dataAlign
              raColumn := raColumn
              initialInstructions := body }
          return { cie := c, body := body, pos := pos }

/-- `parseCIE`, up to the return-address column. -/
def parseCIEHeader (raw : Slice UInt8) : Go CIEHeader := do
  if raw.len < 4 then .error .truncated
  else
    let length ← uint32At raw 0
    if length = 0xFFFFFFFF then .error .sixtyFourBit
    else if length = 0 then .error .zeroLengthCIE
    else
      let body ← recordBody raw length
      parseCIEBody body

/-- The rest of `parseCIE`. -/
def CIEHeader.finish (h : CIEHeader) : Go CIE :=
  if startsWithZ h.cie.augmentation then do
    let (augLen, pos) ← uleb128At h.body h.pos
    let augData ← h.body.sub pos (afterAugmentation pos augLen)
    let c ← h.cie.parseAugmentationData h.cie.augmentation.tail augData
    let instructions ← h.body.suffix (afterAugmentation pos augLen)
    return { c with initialInstructions := instructions }
  else if h.cie.augmentation = [] then do
    let instructions ← h.body.suffix h.pos
    return { h.cie with initialInstructions := instructions }
  -- "eh"
  else if h.cie.augmentation = [101, 104] then .error .legacyAugmentation
  else .error (.unknownAugmentation h.cie.augmentation)

def parseCIE (raw : Slice UInt8) : Go CIE := do
  let h ← parseCIEHeader raw
  h.finish

/-! ## FDEs -/

structure FDE where
  cie : CIE
  initialLocation : UInt64
  addressRange : UInt64
  instructions : Slice UInt8
deriving DecidableEq

/-- The fixed part of an FDE, and where in its body the rest starts. -/
structure FDEHeader where
  initialLocation : UInt64
  addressRange : UInt64
  body : Slice UInt8
  pos : Int

/-- `parseFDE` on the body of the record, up to the address range. -/
def parseFDEBody (body : Slice UInt8) (filePos : UInt64) (c : CIE) : Go FDEHeader := do
  let (initLoc, n) ← decodeEHPointer (← body.suffix 4) c.fdePointerEnc (filePos + 8) 0
  let (addrRange, pos) ← pointerAt (c.fdePointerEnc &&& 0x0f) body (4 + n)
  return { initialLocation := initLoc, addressRange := addrRange, body := body, pos := pos }

/-- `parseFDE`, up to the address range. -/
def parseFDEHeader (raw : Slice UInt8) (filePos : UInt64) (c : CIE) : Go FDEHeader := do
  if raw.len < 8 then .error .truncated
  else
    let length ← uint32At raw 0
    if length = 0xFFFFFFFF ∨ length = 0 then .error .unsupportedFDELength
    else
      let body ← recordBody raw length
      parseFDEBody body filePos c

/-- The rest of `parseFDE`. -/
def FDEHeader.finish (h : FDEHeader) (c : CIE) : Go FDE := do
  let pos ←
    if startsWithZ c.augmentation then do
      let (augLen, pos) ← uleb128At h.body h.pos
      pure (afterAugmentation pos augLen)
    else pure h.pos
  let instructions ← h.body.suffix pos
  return { cie := c, initialLocation := h.initialLocation, addressRange := h.addressRange,
           instructions := instructions }

def parseFDE (raw : Slice UInt8) (filePos : UInt64) (c : CIE) : Go FDE := do
  let h ← parseFDEHeader raw filePos c
  h.finish c

/-! ## The walk -/

/-- The state of `walkEHFrame` and of the callback. -/
structure Walk where
  pos : Nat := 0
  /-- The CIEs by their position, the last one first. -/
  cies : List (UInt64 × CIE) := []
  allEntries : List CFIEntry := []

section Compile

variable (fuel : Nat) (data : Slice UInt8) (sectionPos : UInt64) (arch : ArchInfo)

/-- The callback of `Compile`, for an FDE. -/
def compileFDE (f : FDE) : Go (List CFIEntry) := do
  let s ← interpret fuel f.cie arch f.initialLocation (f.initialLocation + f.addressRange) f.instructions
  return s.entries

def walkRecord (w : Walk) (recordEnd : Nat) : Go Walk := do
  let pos := UInt64.ofNat w.pos
  let secondWord ← uint32At data (w.pos + 4)
  let raw ← data.sub w.pos recordEnd
  if secondWord = 0 then
    let c ← (parseCIE raw).mapError (.cieAt pos)
    return { w with pos := recordEnd, cies := (pos, c) :: w.cies }
  else
    let cieOff := pos + 4 - UInt64.ofNat secondWord
    match w.cies.lookup cieOff with
    | none => .error (.unknownCIE pos cieOff)
    | some c =>
      let f ← (parseFDE raw (sectionPos + pos) c).mapError (.fdeAt pos)
      let entries ← compileFDE fuel arch f
      return { w with pos := recordEnd, allEntries := w.allEntries ++ entries }

/-- One turn of the loop of `walkEHFrame`, or `none` at the end. -/
def walkStep (w : Walk) : Go (Option Walk) := do
  if w.pos + 4 ≤ data.len then
    let length ← uint32At data w.pos
    if length = 0 then return none
    else if length = 0xFFFFFFFF then .error .sixtyFourBit
    else if w.pos + 4 + length > data.len then .error .truncated
    else
      let w ← walkRecord fuel data sectionPos arch w (w.pos + 4 + length)
      return some w
  else return none

/-- The loop of `walkEHFrame`, for at most `n` turns. -/
def walkFrom : Nat → Walk → Go (List CFIEntry)
  | 0, _ => .outOfFuel
  | n + 1, w => do
      match ← walkStep fuel data sectionPos arch w with
      | none => return w.allEntries
      | some w => walkFrom n w

/-- The part of `Compile` that works on the contents of the section; each loop is given the same
number of turns. -/
def compileSection : Go (List CFIEntry) := walkFrom fuel data sectionPos arch fuel {}

end Compile

end PerfAgent.Unwind
