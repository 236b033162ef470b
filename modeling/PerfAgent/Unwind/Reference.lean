import PerfAgent.Unwind.Interpreter

/-!
# What a CFI program means

The register-rule machine of DWARF, over instructions that have been read.  It has a rule for
every register and not only for the two that the interpreter follows, exact addresses and
offsets, and a stack without a bound.  What it produces is a table of segments: which rules
are in force over which addresses.

The rule for the CFA has its form, its register and its offset as three fields, as libgcc has
them: an instruction that sets one of them leaves the others alone.
-/

namespace PerfAgent.Unwind

inductive Rule where
  | undefined
  | sameValue
  | offset (n : Int)
  | register (reg : UInt64)
  | /-- By an expression, or as the value of an offset. -/ inexpressible
deriving DecidableEq

inductive CFAForm where
  | unset
  | regOffset
  | expression
deriving DecidableEq

structure CFARule where
  form : CFAForm
  reg : UInt64
  offset : Int
deriving DecidableEq

structure RuleSet where
  cfa : CFARule
  regs : UInt64 → Rule

/-- The rules in force over `[lo, hi)`. -/
structure Segment where
  lo : Nat
  hi : Nat
  rules : RuleSet
  /-- Some register has been given an inexpressible rule before. -/
  tainted : Bool

variable (arch : ArchInfo)

structure Dwarf where
  loc : Nat
  rules : RuleSet
  /-- The rules that `restore` goes back to. -/
  initial : UInt64 → Rule
  saved : List RuleSet := []
  tainted : Bool := false
  /-- The latest one first. -/
  table : List Segment := []

namespace Dwarf

/-- Before the first instruction: no CFA; the frame pointer is preserved, the return address
is not known. -/
def start (loc : Nat) : Dwarf :=
  let regs : UInt64 → Rule := fun reg => if reg = arch.fpReg.toUInt64 then .sameValue else .undefined
  { loc := loc
    rules :=
      { cfa := { form := .unset, reg := 0, offset := 0 }
        regs := regs }
    initial := regs }

def advance (r : Dwarf) (pc : Nat) : Dwarf :=
  { r with
    loc := pc
    table := { lo := r.loc, hi := pc, rules := r.rules, tainted := r.tainted } :: r.table }

/-- The instructions of the CIE have run, and those of the FDE start from `loc`. -/
def sealed (r : Dwarf) (loc : Nat) : Dwarf :=
  { r with
    loc := loc
    initial := r.rules.regs
    table := [] }

def setRule (r : Dwarf) (reg : UInt64) (rule : Rule) : Dwarf :=
  { r with rules := { r.rules with regs := Function.update r.rules.regs reg rule } }

def setCFA (r : Dwarf) (cfa : CFARule) : Dwarf := { r with rules := { r.rules with cfa := cfa } }

end Dwarf

section Step

-- `base` is what the pointer encoding adds to the operand that stands at a position
variable (c : CIE) (base : Int → UInt64)

def CIE.offsetOf : Instr → Option Int
  | .offset _ factor => some (factor.toNat * c.dataAlign.toInt)
  | .offsetExtendedSF _ factor => some (factor.toInt * c.dataAlign.toInt)
  | .defCFA _ off => some off.toNat
  | .defCFASF _ off => some (off.toInt * c.dataAlign.toInt)
  | .defCFAOffset off => some off.toNat
  | .defCFAOffsetSF off => some (off.toInt * c.dataAlign.toInt)
  | _ => none

def Dwarf.target (r : Dwarf) : Instr → Option Nat
  | .advanceLoc factor => some (r.loc + factor.toNat * c.codeAlign.toNat)
  | .setLoc newPC operand => some (newPC + base operand).toNat
  | _ => none

def Dwarf.step (r : Dwarf) : Instr → Option Dwarf
  | .nop => some r
  | .advanceLoc factor => some (r.advance (r.loc + factor.toNat * c.codeAlign.toNat))
  | .setLoc newPC operand => some (r.advance (newPC + base operand).toNat)
  | .offset reg factor => some (r.setRule reg (.offset (factor.toNat * c.dataAlign.toInt)))
  | .offsetExtendedSF reg factor => some (r.setRule reg (.offset (factor.toInt * c.dataAlign.toInt)))
  | .restore reg => some (r.setRule reg (r.initial reg))
  | .undefined reg => some (r.setRule reg .undefined)
  | .sameValue reg => some (r.setRule reg .sameValue)
  | .register reg other => some (r.setRule reg (.register other))
  | .rememberState => some { r with saved := r.rules :: r.saved }
  | .restoreState =>
    match r.saved with
    | [] => none
    | rules :: saved => some { r with rules := rules, saved := saved }
  | .defCFA reg off => some (r.setCFA { form := .regOffset, reg := reg, offset := off.toNat })
  | .defCFASF reg off =>
    some (r.setCFA { form := .regOffset, reg := reg, offset := off.toInt * c.dataAlign.toInt })
  | .defCFARegister reg => some (r.setCFA { r.rules.cfa with form := .regOffset, reg := reg })
  | .defCFAOffset off => some (r.setCFA { r.rules.cfa with offset := off.toNat })
  | .defCFAOffsetSF off =>
    some (r.setCFA { r.rules.cfa with offset := off.toInt * c.dataAlign.toInt })
  | .defCFAExpression _ => some (r.setCFA { r.rules.cfa with form := .expression })
  | .expression reg _ => some { r.setRule reg .inexpressible with tainted := true }
  | .valOffset reg => some { r.setRule reg .inexpressible with tainted := true }

end Step

def segmentAt (table : List Segment) (pc : Nat) : Option Segment :=
  table.find? fun g => g.lo ≤ pc ∧ pc < g.hi

/-! ## What a row can say -/

/-- The CFA type of a CFA rule: there is one for the stack pointer and one for the frame pointer
only. -/
def ArchInfo.typeOf (cfa : CFARule) : CFAType :=
  if cfa.form = .regOffset then
    if cfa.reg = arch.spReg.toUInt64 then .sp
    else if cfa.reg = arch.fpReg.toUInt64 then .fp
    else .undefined
  else .undefined

structure RuleSet.Expressible (arch : ArchInfo) (c : CIE) (rules : RuleSet) : Prop where
  cfa : arch.typeOf rules.cfa ≠ .undefined
  fp : rules.regs arch.fpReg.toUInt64 ≠ .inexpressible
  ra : rules.regs c.raColumn ≠ .inexpressible

/-- A type and an offset say what the rule is.  A row does not say which register a value has
been moved to. -/
def Rule.SaidBy (t : SavedType) (offset : Int32) : Rule → Prop
  | .undefined => t = .undefined
  | .sameValue => t = .sameValue
  | .offset n => t = .offsetCFA ∧ offset.toInt = n
  | .register _ => t = .register
  | .inexpressible => False

structure CFIEntry.Describes (arch : ArchInfo) (c : CIE) (e : CFIEntry) (rules : RuleSet) : Prop where
  cfaDefined : e.cfaType ≠ .undefined
  cfaType : e.cfaType = arch.typeOf rules.cfa
  cfaOffset : e.cfaOffset.toInt = rules.cfa.offset
  fp : (rules.regs arch.fpReg.toUInt64).SaidBy e.fpType e.fpOffset
  ra : (rules.regs c.raColumn).SaidBy e.raType e.raOffset

def CFIEntry.pcEnd (e : CFIEntry) : Nat := e.pcStart.toNat + e.pcEndDelta.toNat

def CFIEntry.Covers (e : CFIEntry) (pc : Nat) : Prop := e.pcStart.toNat ≤ pc ∧ pc < e.pcEnd

instance (t : SavedType) (offset : Int32) (r : Rule) : Decidable (r.SaidBy t offset) :=
  match r with
  | .undefined => inferInstanceAs (Decidable (t = .undefined))
  | .sameValue => inferInstanceAs (Decidable (t = .sameValue))
  | .offset n => inferInstanceAs (Decidable (t = .offsetCFA ∧ offset.toInt = n))
  | .register _ => inferInstanceAs (Decidable (t = .register))
  | .inexpressible => inferInstanceAs (Decidable False)

instance (e : CFIEntry) (pc : Nat) : Decidable (e.Covers pc) :=
  inferInstanceAs (Decidable (_ ∧ _))

theorem CFIEntry.Describes.expressible {arch : ArchInfo} {c : CIE} {e : CFIEntry} {rules : RuleSet}
    (h : e.Describes arch c rules) : rules.Expressible arch c where
  cfa := h.cfaType ▸ h.cfaDefined
  fp heq := by
    have := h.fp
    rw [heq] at this
    exact this
  ra heq := by
    have := h.ra
    rw [heq] at this
    exact this

end PerfAgent.Unwind
