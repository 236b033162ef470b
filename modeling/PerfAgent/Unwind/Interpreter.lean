import PerfAgent.Unwind.Encoding

/-!
# The CFI interpreter

`unwind/ehcompile/interpreter.go`, with the types and opcodes that it uses.  The loop of `run`
is split in two: `fetch` reads an instruction with its operands, and `exec` carries it out; in
the source every case reads its operands before it changes anything.  What the two disagree on
is where the next instruction starts: an expression is skipped by adding its length, an
untrusted 64-bit number, to a signed position.
-/

namespace PerfAgent.Unwind

/-! ## Rows and rules -/

inductive CFAType where
  | undefined
  | sp
  | fp
deriving DecidableEq

/-- `FPType` and `RAType`: the same four cases. -/
inductive SavedType where
  | undefined
  | offsetCFA
  | sameValue
  | register
deriving DecidableEq

abbrev FPType := SavedType
abbrev RAType := SavedType

structure CFIEntry where
  pcStart : UInt64
  pcEndDelta : UInt32
  cfaType : CFAType
  fpType : FPType
  cfaOffset : Int32
  fpOffset : Int32
  raOffset : Int32
  raType : RAType
deriving DecidableEq

inductive RuleKind where
  | undefined
  | sameValue
  | offset
  | register
  | expression
deriving DecidableEq

structure RegRule where
  kind : RuleKind
  offset : Int64 := 0
  register : UInt8 := 0
deriving DecidableEq

structure ArchInfo where
  spReg : UInt8
  fpReg : UInt8
  raReg : UInt8
deriving DecidableEq

def archX86_64 : ArchInfo where
  spReg := 7
  fpReg := 6
  raReg := 16

def archARM64 : ArchInfo where
  spReg := 31
  fpReg := 29
  raReg := 30

def ArchInfo.cfaTypeFor (a : ArchInfo) (reg : UInt8) : CFAType :=
  if reg = a.spReg then .sp else if reg = a.fpReg then .fp else .undefined

structure CIE where
  version : UInt8
  augmentation : List UInt8
  codeAlign : UInt64
  dataAlign : Int64
  raColumn : UInt64
  fdePointerEnc : UInt8 := 0
  hasSignalFrame : Bool := false
  initialInstructions : Slice UInt8
deriving DecidableEq

/-- The rules in force: what is saved, compared and restored as one. -/
structure SavedState where
  cfaType : CFAType
  cfaOffset : Int64
  cfaRule : RuleKind
  fpRule : RegRule
  raRule : RegRule
deriving DecidableEq

abbrev EmittedState := SavedState

structure Interp where
  cie : CIE
  arch : ArchInfo
  pc : UInt64 := 0
  /-- The current `cfaType`, `cfaOffset`, `cfaRule`, `fpRule` and `raRule`. -/
  rules : SavedState
  initFPRule : RegRule
  initRARule : RegRule
  lastEmittedPC : UInt64 := 0
  lastState : EmittedState
  /-- `entries`, the last one first. -/
  emitted : List CFIEntry := []
  /-- The first `sp` elements of `stack`, the last one first. -/
  stack : List SavedState := []
deriving DecidableEq

def Interp.entries (s : Interp) : List CFIEntry := s.emitted.reverse

def archDefaultFPRule : RegRule where
  kind := .sameValue

def archDefaultRARule : RegRule where
  kind := .undefined

def newInterpreter (c : CIE) (arch : ArchInfo) : Interp where
  cie := c
  arch := arch
  rules :=
    { cfaType := .undefined
      cfaOffset := 0
      cfaRule := .undefined
      fpRule := archDefaultFPRule
      raRule := archDefaultRARule }
  initFPRule := archDefaultFPRule
  initRARule := archDefaultRARule
  -- the zero value
  lastState :=
    { cfaType := .undefined
      cfaOffset := 0
      cfaRule := .undefined
      fpRule := { kind := .undefined }
      raRule := { kind := .undefined } }

namespace Interp

def sealInitialRules (s : Interp) : Interp :=
  { s with
    initFPRule := s.rules.fpRule
    initRARule := s.rules.raRule }

/-! ## Emission -/

def ruleToType (r : RegRule) : SavedType :=
  match r.kind with
  | .offset => .offsetCFA
  | .sameValue => .sameValue
  | .register => .register
  | .undefined => .undefined
  | .expression => .undefined

def fpRuleToType (r : RegRule) : FPType := ruleToType r
def raRuleToType (r : RegRule) : RAType := ruleToType r

def snapshot (s : Interp) (newPC : UInt64) : Interp :=
  if newPC ≤ s.lastEmittedPC then s
  else if s.rules.cfaType = .undefined ∧ s.rules.cfaRule ≠ .expression then
    { s with lastEmittedPC := newPC }
  else if s.rules.cfaRule = .expression then
    { s with
      lastState := s.rules
      lastEmittedPC := newPC }
  else
    let delta := (newPC - s.lastEmittedPC).toUInt32
    let row : CFIEntry :=
      { pcStart := s.lastEmittedPC
        pcEndDelta := delta
        cfaType := s.rules.cfaType
        fpType := fpRuleToType s.rules.fpRule
        cfaOffset := s.rules.cfaOffset.toInt32
        fpOffset := s.rules.fpRule.offset.toInt32
        raOffset := s.rules.raRule.offset.toInt32
        raType := raRuleToType s.rules.raRule }
    match s.emitted with
    | [] =>
      { s with
        emitted := [row]
        lastState := s.rules
        lastEmittedPC := newPC }
    | e :: es =>
      if s.rules = s.lastState then
        { s with
          emitted := { e with pcEndDelta := e.pcEndDelta + delta } :: es
          lastEmittedPC := newPC }
      else
        { s with
          emitted := row :: e :: es
          lastState := s.rules
          lastEmittedPC := newPC }

def snapshotAndAdvance (s : Interp) (delta : UInt64) : Interp :=
  let s := s.snapshot (s.pc + delta)
  { s with pc := s.pc + delta }

/-! ## Rule changes -/

def setCFAReg (s : Interp) (reg : UInt8) : Interp :=
  let t := s.arch.cfaTypeFor reg
  { s with
    rules :=
      { s.rules with
        cfaType := t
        cfaRule := if t = .undefined then .expression else .sameValue } }

def setCFA (s : Interp) (reg : UInt8) (off : Int64) : Interp :=
  let s := s.setCFAReg reg
  { s with rules := { s.rules with cfaOffset := off } }

/-- `DW_CFA_def_cfa_offset` and its signed form. -/
def setCFAOffset (s : Interp) (off : Int64) : Interp :=
  let rule := if s.rules.cfaType = .undefined then s.rules.cfaRule else .sameValue
  { s with
    rules :=
      { s.rules with
        cfaOffset := off
        cfaRule := rule } }

def setExpression (s : Interp) : Interp := { s with rules := { s.rules with cfaRule := .expression } }

def setRegRule (s : Interp) (reg : UInt8) (r : RegRule) : Interp :=
  if reg = s.arch.fpReg then { s with rules := { s.rules with fpRule := r } }
  else if reg.toUInt64 = s.cie.raColumn then { s with rules := { s.rules with raRule := r } }
  else s

def setRegOffset (s : Interp) (reg : UInt8) (offset : Int64) : Interp :=
  s.setRegRule reg
    { kind := .offset
      offset := offset }

def restoreRegInitial (s : Interp) (reg : UInt8) : Interp :=
  if reg = s.arch.fpReg then { s with rules := { s.rules with fpRule := s.initFPRule } }
  else if reg.toUInt64 = s.cie.raColumn then { s with rules := { s.rules with raRule := s.initRARule } }
  else s

end Interp

/-! ## Instructions -/

inductive Instr where
  | /-- Also `AArch64_negate_ra_state` and `GNU_args_size`. -/ nop
  | /-- All four forms; the factor is still to be multiplied by `codeAlign`. -/
    advanceLoc (factor : UInt64)
  | /-- The operand as it is decoded without a base, and where in the program it stands. -/
    setLoc (newPC : UInt64) (operand : Int)
  | /-- `offset` and `offset_extended`. -/ offset (reg factor : UInt64)
  | offsetExtendedSF (reg : UInt64) (factor : Int64)
  | /-- `restore` and `restore_extended`. -/ restore (reg : UInt64)
  | undefined (reg : UInt64)
  | sameValue (reg : UInt64)
  | register (reg other : UInt64)
  | rememberState
  | restoreState
  | defCFA (reg off : UInt64)
  | defCFASF (reg : UInt64) (off : Int64)
  | defCFARegister (reg : UInt64)
  | defCFAOffset (off : UInt64)
  | defCFAOffsetSF (off : Int64)
  | defCFAExpression (length : UInt64)
  | /-- `expression` and `val_expression`. -/ expression (reg length : UInt64)
  | /-- `val_offset` and `val_offset_sf`. -/ valOffset (reg : UInt64)
deriving DecidableEq

def Instr.blockLength : Instr → UInt64
  | .defCFAExpression length => length
  | .expression _ length => length
  | _ => 0

def cfaAdvanceLoc : UInt8 := 0x40
def cfaOffset : UInt8 := 0x80
def cfaRestore : UInt8 := 0xc0

def cfaNop : UInt8 := 0x00
def cfaSetLoc : UInt8 := 0x01
def cfaAdvanceLoc1 : UInt8 := 0x02
def cfaAdvanceLoc2 : UInt8 := 0x03
def cfaAdvanceLoc4 : UInt8 := 0x04
def cfaOffsetExtended : UInt8 := 0x05
def cfaRestoreExtended : UInt8 := 0x06
def cfaUndefined : UInt8 := 0x07
def cfaSameValue : UInt8 := 0x08
def cfaRegister : UInt8 := 0x09
def cfaRememberState : UInt8 := 0x0a
def cfaRestoreState : UInt8 := 0x0b
def cfaDefCFA : UInt8 := 0x0c
def cfaDefCFARegister : UInt8 := 0x0d
def cfaDefCFAOffset : UInt8 := 0x0e
def cfaDefCFAExpression : UInt8 := 0x0f
def cfaExpression : UInt8 := 0x10
def cfaOffsetExtendedSF : UInt8 := 0x11
def cfaDefCFASF : UInt8 := 0x12
def cfaDefCFAOffsetSF : UInt8 := 0x13
def cfaValOffset : UInt8 := 0x14
def cfaValOffsetSF : UInt8 := 0x15
def cfaValExpression : UInt8 := 0x16
def cfaAArch64NegateRAState : UInt8 := 0x2d
def cfaGnuArgsSize : UInt8 := 0x2e

def cfaOpcodeMask : UInt8 := 0xc0
def cfaOperandMask : UInt8 := 0x3f

def uleb128At (program : Slice UInt8) (pos : Int) : Go (UInt64 × Int) := do
  let (v, n) ← decodeULEB128 (← program.suffix pos)
  return (v, pos + n)

def sleb128At (program : Slice UInt8) (pos : Int) : Go (Int64 × Int) := do
  let (v, n) ← decodeSLEB128 (← program.suffix pos)
  return (v, pos + n)

def fixedAt (n : Nat) (program : Slice UInt8) (pos : Int) : Go (UInt64 × Int) :=
  if pos + n > program.len then .error .truncated
  else do
    let v ← littleEndian n (← program.suffix pos)
    return (UInt64.ofNat v, pos + n)

variable (enc : UInt8)

def pointerAt (program : Slice UInt8) (pos : Int) : Go (UInt64 × Int) := do
  let (v, n) ← decodeEHPointer (← program.suffix pos) enc 0 0
  return (v, pos + n)

/-- The instruction at a position that starts with the opcode `op`. -/
def operands (program : Slice UInt8) (op : UInt8) (pos : Int) : Go (Instr × Int) :=
  if op &&& cfaOpcodeMask = cfaAdvanceLoc then
    return (.advanceLoc (op &&& cfaOperandMask).toUInt64, pos)
  else if op &&& cfaOpcodeMask = cfaOffset then do
    let (factor, pos) ← uleb128At program pos
    return (.offset (op &&& cfaOperandMask).toUInt64 factor, pos)
  else if op &&& cfaOpcodeMask = cfaRestore then
    return (.restore (op &&& cfaOperandMask).toUInt64, pos)
  else if op = cfaNop then return (.nop, pos)
  else if op = cfaAdvanceLoc1 then do
    let (factor, pos) ← fixedAt 1 program pos
    return (.advanceLoc factor, pos)
  else if op = cfaAdvanceLoc2 then do
    let (factor, pos) ← fixedAt 2 program pos
    return (.advanceLoc factor, pos)
  else if op = cfaAdvanceLoc4 then do
    let (factor, pos) ← fixedAt 4 program pos
    return (.advanceLoc factor, pos)
  else if op = cfaDefCFA then do
    let (reg, pos) ← uleb128At program pos
    let (off, pos) ← uleb128At program pos
    return (.defCFA reg off, pos)
  else if op = cfaDefCFASF then do
    let (reg, pos) ← uleb128At program pos
    let (off, pos) ← sleb128At program pos
    return (.defCFASF reg off, pos)
  else if op = cfaDefCFARegister then do
    let (reg, pos) ← uleb128At program pos
    return (.defCFARegister reg, pos)
  else if op = cfaDefCFAOffset then do
    let (off, pos) ← uleb128At program pos
    return (.defCFAOffset off, pos)
  else if op = cfaDefCFAOffsetSF then do
    let (off, pos) ← sleb128At program pos
    return (.defCFAOffsetSF off, pos)
  else if op = cfaOffsetExtended then do
    let (reg, pos) ← uleb128At program pos
    let (factor, pos) ← uleb128At program pos
    return (.offset reg factor, pos)
  else if op = cfaOffsetExtendedSF then do
    let (reg, pos) ← uleb128At program pos
    let (factor, pos) ← sleb128At program pos
    return (.offsetExtendedSF reg factor, pos)
  else if op = cfaUndefined then do
    let (reg, pos) ← uleb128At program pos
    return (.undefined reg, pos)
  else if op = cfaSameValue then do
    let (reg, pos) ← uleb128At program pos
    return (.sameValue reg, pos)
  else if op = cfaRegister then do
    let (reg, pos) ← uleb128At program pos
    let (other, pos) ← uleb128At program pos
    return (.register reg other, pos)
  else if op = cfaRestoreExtended then do
    let (reg, pos) ← uleb128At program pos
    return (.restore reg, pos)
  else if op = cfaRememberState then return (.rememberState, pos)
  else if op = cfaRestoreState then return (.restoreState, pos)
  else if op = cfaDefCFAExpression then do
    let (length, pos) ← uleb128At program pos
    return (.defCFAExpression length, pos)
  else if op = cfaExpression ∨ op = cfaValExpression then do
    let (reg, pos) ← uleb128At program pos
    let (length, pos) ← uleb128At program pos
    return (.expression reg length, pos)
  else if op = cfaSetLoc then do
    let (newPC, pos') ← pointerAt enc program pos
    return (.setLoc newPC pos, pos')
  else if op = cfaAArch64NegateRAState then return (.nop, pos)
  else if op = cfaGnuArgsSize then do
    let (_, pos) ← uleb128At program pos
    return (.nop, pos)
  else if op = cfaValOffset then do
    let (reg, pos) ← uleb128At program pos
    let (_, pos) ← uleb128At program pos
    return (.valOffset reg, pos)
  else if op = cfaValOffsetSF then do
    let (reg, pos) ← uleb128At program pos
    let (_, pos) ← sleb128At program pos
    return (.valOffset reg, pos)
  else .error (.unhandledOpcode op (pos - 1))

/-- The instruction at a position, and the position after its operands. -/
def fetch (program : Slice UInt8) (pos : Int) : Go (Instr × Int) := do
  let op ← program.index pos
  operands enc program op (pos + 1)

/-- The number of states that `remember_state` can hold. -/
def stackDepth : Nat := 16

def exec (s : Interp) : Instr → Go Interp
  | .nop => .ok s
  | .advanceLoc factor => .ok (s.snapshotAndAdvance (factor * s.cie.codeAlign))
  | .setLoc newPC _ =>
    if newPC < s.pc then .error .setLocBackward else .ok (s.snapshotAndAdvance (newPC - s.pc))
  | .offset reg factor => .ok (s.setRegOffset reg.toUInt8 (factor.toInt64 * s.cie.dataAlign))
  | .offsetExtendedSF reg factor => .ok (s.setRegOffset reg.toUInt8 (factor * s.cie.dataAlign))
  | .restore reg => .ok (s.restoreRegInitial reg.toUInt8)
  | .undefined reg => .ok (s.setRegRule reg.toUInt8 { kind := .undefined })
  | .sameValue reg => .ok (s.setRegRule reg.toUInt8 { kind := .sameValue })
  | .register reg other =>
    .ok (s.setRegRule reg.toUInt8 { kind := .register, register := other.toUInt8 })
  | .rememberState =>
    if stackDepth ≤ s.stack.length then .error .rememberOverflow
    else .ok { s with stack := s.rules :: s.stack }
  | .restoreState =>
    match s.stack with
    | [] => .error .restoreEmpty
    | saved :: stack => .ok { s with rules := saved, stack := stack }
  | .defCFA reg off => .ok (s.setCFA reg.toUInt8 off.toInt64)
  | .defCFASF reg off => .ok (s.setCFA reg.toUInt8 (off * s.cie.dataAlign))
  | .defCFARegister reg => .ok (s.setCFAReg reg.toUInt8)
  | .defCFAOffset off => .ok (s.setCFAOffset off.toInt64)
  | .defCFAOffsetSF off => .ok (s.setCFAOffset (off * s.cie.dataAlign))
  | .defCFAExpression _ =>
    .ok { s with rules := { s.rules with cfaType := .undefined, cfaRule := .expression } }
  | .expression _ _ => .ok s.setExpression
  | .valOffset _ => .ok s.setExpression

/-! ## `run` -/

/-- Addition of `int`s. -/
def wrapInt (x : Int) : Int := x.bmod (2 ^ 64)

def afterBlock (i : Instr) (pos : Int) : Int := wrapInt (pos + i.blockLength.toInt64.toInt)

/-- The loop of `run`, for as many instructions as there is fuel. -/
def loop (program : Slice UInt8) : Nat → Int → Interp → Go Interp
  | 0, pos, s => if pos < program.len then .outOfFuel else .ok s
  | fuel + 1, pos, s =>
    if pos < program.len then do
      let (i, pos) ← fetch s.cie.fdePointerEnc program pos
      let s ← exec s i
      loop program fuel (afterBlock i pos) s
    else .ok s

def Interp.begin (s : Interp) (startPC : UInt64) : Interp :=
  { s with
    pc := startPC
    lastEmittedPC := startPC }

def Interp.run (s : Interp) (fuel : Nat) (startPC endPC : UInt64) (program : Slice UInt8) : Go Interp := do
  let s ← loop program fuel 0 (s.begin startPC)
  return s.snapshot endPC

/-- What `Compile` does with an FDE: the instructions of its CIE over no range at all, and then
its own over `[startPC, endPC)`. -/
def interpret (fuel : Nat) (c : CIE) (arch : ArchInfo) (startPC endPC : UInt64)
    (instructions : Slice UInt8) : Go Interp := do
  let s ← ((newInterpreter c arch).run fuel startPC startPC c.initialInstructions).mapError (.cieInitAt startPC)
  let s := { s.sealInitialRules with lastEmittedPC := startPC }
  (s.run fuel startPC endPC instructions).mapError (.fdeRunAt startPC)

end PerfAgent.Unwind
