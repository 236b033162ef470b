import PerfAgent.Unwind.ProgramNumbers

/-!
# Numbers that do not fit

A row has 32 bits for a length and for an offset, and the interpreter has 64 for an offset and for
an address and eight for a register number.  Next to the interpreter runs a machine that takes the
same branches over numbers without a bound, and that writes down for each row the ranges that the
row is made of, with the rules in force.  The rows say what is written down exactly if all of it
fits.
-/

namespace PerfAgent.Unwind

open List

/-! ## Rules without bounds -/

structure ExactRule where
  kind : RuleKind
  offset : Int := 0
  /-- The register numbers by which the program has said so. -/
  named : List Nat := []
deriving DecidableEq

structure ExactRules where
  /-- The register that the CFA was last said to be based on. -/
  cfaReg : Nat := 0
  cfaOffset : Int := 0
  fp : ExactRule
  ra : ExactRule
deriving DecidableEq

structure Piece where
  lo : Nat
  hi : Nat
  rules : ExactRules
deriving DecidableEq

def bytes : List Piece → Nat
  | [] => 0
  | p :: ps => p.hi - p.lo + bytes ps

structure Exact where
  loc : Nat
  rules : ExactRules
  initFP : ExactRule
  initRA : ExactRule
  stack : List ExactRules := []
  /-- Where emission has got to. -/
  mark : Nat
  /-- The ranges of each row, the last one first. -/
  log : List (List Piece) := []

structure Lockstep where
  interp : Interp
  free : Exact

section Machine

variable (f : FDE) (arch : ArchInfo) (n : CIENumbers)

def TakenForFP (reg : Nat) : Prop := reg % 2 ^ 8 = arch.fpReg.toNat

/-- The number is that of the return-address column, or the interpreter takes it for it. -/
def AboutRA (reg : Nat) : Prop :=
  reg = n.raColumn ∧ reg ≠ arch.fpReg.toNat ∨ reg % 2 ^ 8 ≠ arch.fpReg.toNat ∧ reg % 2 ^ 8 = n.raColumn % 2 ^ 64

instance (reg : Nat) : Decidable (TakenForFP arch reg) := inferInstanceAs (Decidable (_ = _))

variable (y : Lockstep)

instance (reg : Nat) : Decidable (AboutRA arch n reg) := inferInstanceAs (Decidable (_ ∧ _ ∨ _ ∧ _))

variable (x : Exact)

namespace Exact

/-- The program gives a register a rule: what it is for the frame pointer, and for the return
address. -/
def write (reg : Nat) (fp ra : ExactRule) : Exact :=
  { x with
    rules :=
      { x.rules with
        fp := if TakenForFP arch reg then { fp with named := reg :: fp.named } else x.rules.fp
        ra := if AboutRA arch n reg then { ra with named := reg :: n.raColumn :: ra.named } else x.rules.ra } }

def set (reg : Nat) (r : ExactRule) : Exact := x.write arch n reg r r

def setCFA (reg : Nat) (offset : Int) : Exact :=
  { x with rules := { x.rules with cfaReg := reg, cfaOffset := offset } }

def rule (m : Numbers) : Instr → Exact
  | .offset _ _ => x.set arch n m.reg { kind := .offset, offset := m.num * n.dataAlign }
  | .offsetExtendedSF _ _ => x.set arch n m.reg { kind := .offset, offset := m.num * n.dataAlign }
  | .restore _ => x.write arch n m.reg x.initFP x.initRA
  | .undefined _ => x.set arch n m.reg { kind := .undefined }
  | .sameValue _ => x.set arch n m.reg { kind := .sameValue }
  | .register _ _ => x.set arch n m.reg { kind := .register }
  | .rememberState => { x with stack := x.rules :: x.stack }
  | .restoreState => { x with rules := x.stack.head?.getD x.rules, stack := x.stack.tail }
  | .defCFA _ _ => x.setCFA m.reg m.num
  | .defCFASF _ _ => x.setCFA m.reg (m.num * n.dataAlign)
  | .defCFARegister _ => x.setCFA m.reg x.rules.cfaOffset
  | .defCFAOffset _ => x.setCFA x.rules.cfaReg m.num
  | .defCFAOffsetSF _ => x.setCFA x.rules.cfaReg (m.num * n.dataAlign)
  | _ => x

end Exact

namespace Lockstep

/-- The address that an action goes to, for the interpreter and without a bound. -/
def target : FDE.Action → Option (UInt64 × Nat)
  | .carryOut _ (.advanceLoc factor) =>
    some (y.interp.pc + factor * y.interp.cie.codeAlign, y.free.loc + factor.toNat * n.codeAlign)
  | .carryOut _ (.setLoc newPC _) => some (newPC, newPC.toNat)
  | .carryOut _ _ => none
  | .endCIE => some (f.initialLocation, f.initialLocation.toNat)
  | .endFDE => some (f.endPC, f.initialLocation.toNat + f.addressRange.toNat)

def openPieces : List Piece :=
  if y.interp.openRow.isSome then y.free.log.head?.getD [] else []

def closedPieces : List (List Piece) :=
  if y.interp.openRow.isSome then y.free.log.tail else y.free.log

def piece (dest : Nat) : Piece where
  lo := y.free.mark
  hi := dest
  rules := y.free.rules

/-- The machine without bounds goes to an address, and the interpreter emits up to there. -/
def move (newPC : UInt64) (dest : Nat) : Exact :=
  { y.free with
    loc := dest
    mark := if y.interp.lastEmittedPC < newPC then dest else y.free.mark
    log := if y.interp.Emits newPC then (y.piece dest :: y.openPieces) :: y.closedPieces else y.free.log }

def follow : FDE.Action × Numbers → Exact
  | (.carryOut pos i, m) =>
    match y.target f n (.carryOut pos i) with
    | some (newPC, dest) => y.move newPC dest
    | none => y.free.rule arch n m i
  | (.endCIE, _) =>
    let x := y.move f.initialLocation f.initialLocation.toNat
    { x with
      initFP := x.rules.fp
      initRA := x.rules.ra
      mark := f.initialLocation.toNat }
  | (.endFDE, _) =>
    { y.move f.endPC (f.initialLocation.toNat + f.addressRange.toNat) with loc := y.free.loc }

def next (y : Lockstep) (q : FDE.Action × Numbers) : Option Lockstep :=
  (f.next y.interp q.1).map fun s => { interp := s, free := y.follow f arch n q }

def opening : Lockstep where
  interp := f.opening arch
  free :=
    { loc := f.initialLocation.toNat
      rules := { fp := { kind := .sameValue }, ra := { kind := .undefined } }
      initFP := { kind := .sameValue }
      initRA := { kind := .undefined }
      mark := f.initialLocation.toNat }

end Lockstep

end Machine

/-! ## What a row should say -/

def ArchInfo.typeOfNumber (a : ArchInfo) (reg : Nat) : CFAType :=
  if reg = a.spReg.toNat then .sp else if reg = a.fpReg.toNat then .fp else .undefined

def ExactRules.named (r : ExactRules) : List Nat := r.cfaReg :: (r.fp.named ++ r.ra.named)

/-- The row has the offsets of the rules, and the rules are about its registers; no register number
has been too large for the interpreter. -/
structure CFIEntry.States (arch : ArchInfo) (n : CIENumbers) (e : CFIEntry) (r : ExactRules) : Prop where
  cfaType : e.cfaType = arch.typeOfNumber r.cfaReg
  cfaOffset : e.cfaOffset.toInt = r.cfaOffset
  fpType : e.fpType = Interp.ruleToType { kind := r.fp.kind }
  fpOffset : e.fpOffset.toInt = r.fp.offset
  raType : e.raType = Interp.ruleToType { kind := r.ra.kind }
  raOffset : e.raOffset.toInt = r.ra.offset
  fpNamed : ∀ reg ∈ r.fp.named, reg = arch.fpReg.toNat
  raNamed : ∀ reg ∈ r.ra.named, reg = n.raColumn
  named : ∀ reg ∈ r.named, reg < 2 ^ 8

/-- The row has the length of its ranges, and says what the rules are over each. -/
structure RowExact (arch : ArchInfo) (n : CIENumbers) (e : CFIEntry) (ps : List Piece) : Prop where
  start : ∀ p ∈ ps.getLast?, e.pcStart.toNat = p.lo
  ranges : ∀ p ∈ ps, p.lo ≤ p.hi
  length : e.pcEndDelta.toNat = bytes ps
  rules : ∀ p ∈ ps, e.States arch n p.rules

/-- The offsets fit in a row, and the register numbers in the interpreter. -/
structure ExactRules.Fit (r : ExactRules) : Prop where
  cfaOffset : FitsInt32 r.cfaOffset
  fpOffset : FitsInt32 r.fp.offset
  raOffset : FitsInt32 r.ra.offset
  named : ∀ reg ∈ r.named, reg < 2 ^ 8

/-- What an emission up to an address must meet: the rules fit; the range starts at an address, if it
starts a row, and does not go backwards; and the row is short enough. -/
structure Lockstep.EmissionFits (y : Lockstep) (dest : Nat) : Prop where
  rules : y.free.rules.Fit
  start : y.interp.openRow = none → y.free.mark < 2 ^ 64
  forward : y.free.mark ≤ dest
  short : bytes y.openPieces + (dest - y.free.mark) < 2 ^ 32

def Lockstep.Fits (f : FDE) (n : CIENumbers) (y : Lockstep) (q : FDE.Action × Numbers) : Prop :=
  ∀ t ∈ y.target f n q.1, y.interp.Emits t.1 → y.EmissionFits t.2

instance (r : ExactRules) : Decidable r.Fit :=
  decidable_of_iff (FitsInt32 r.cfaOffset ∧ FitsInt32 r.fp.offset ∧ FitsInt32 r.ra.offset ∧ ∀ reg ∈ r.named, reg < 2 ^ 8)
    ⟨fun h => ⟨h.1, h.2.1, h.2.2.1, h.2.2.2⟩, fun h => ⟨h.1, h.2, h.3, h.4⟩⟩

instance (y : Lockstep) (dest : Nat) : Decidable (y.EmissionFits dest) :=
  decidable_of_iff (y.free.rules.Fit ∧ (y.interp.openRow = none → y.free.mark < 2 ^ 64) ∧ y.free.mark ≤ dest ∧
      bytes y.openPieces + (dest - y.free.mark) < 2 ^ 32)
    ⟨fun h => ⟨h.1, h.2.1, h.2.2.1, h.2.2.2⟩, fun h => ⟨h.1, h.2, h.3, h.4⟩⟩

instance Lockstep.decidableFits (f : FDE) (n : CIENumbers) (y : Lockstep) (q : FDE.Action × Numbers) : Decidable (y.Fits f n q) :=
  Option.decidableForallMem (y.target f n q.1)

/-! ## Rules that are the same below 64 bits -/

def RegRule.Narrows (a : RegRule) (r : ExactRule) : Prop :=
  a.kind = r.kind ∧ a.offset.toInt = r.offset.bmod (2 ^ 64)

def NarrowsFP (arch : ArchInfo) (a : RegRule) (r : ExactRule) : Prop :=
  a.Narrows r ∧ ∀ reg ∈ r.named, TakenForFP arch reg

/-- Where no register number has been cut the rule is that of the column. -/
def NarrowsRA (n : CIENumbers) (a : RegRule) (r : ExactRule) : Prop :=
  (∀ reg ∈ r.named, reg < 2 ^ 8) → a.Narrows r ∧ ∀ reg ∈ r.named, reg = n.raColumn

structure SavedState.Narrows (arch : ArchInfo) (n : CIENumbers) (a : SavedState) (r : ExactRules) : Prop where
  cfaType : a.cfaType ≠ .undefined → a.cfaType = arch.cfaTypeFor (UInt8.ofNat r.cfaReg)
  cfaOffset : a.cfaOffset.toInt = r.cfaOffset.bmod (2 ^ 64)
  fp : NarrowsFP arch a.fpRule r.fp
  ra : NarrowsRA n a.raRule r.ra

section Rules

variable {arch : ArchInfo} {n : CIENumbers}

theorem cfaTypeFor_ofNat {reg : Nat} (h : reg < 2 ^ 8) : arch.cfaTypeFor (UInt8.ofNat reg) = arch.typeOfNumber reg := by
  have hreg : (UInt8.ofNat reg).toNat = reg := by
    rw [UInt8.toNat_ofNat', Nat.mod_eq_of_lt h]
  have heq : ∀ r : UInt8, UInt8.ofNat reg = r ↔ reg = r.toNat := by
    intro r
    rw [← UInt8.toNat_inj, hreg]
  unfold ArchInfo.cfaTypeFor ArchInfo.typeOfNumber
  simp only [heq]

theorem fitsInt32_toInt (x : Int32) : FitsInt32 x.toInt := ⟨x.le_toInt, x.toInt_lt⟩

theorem RegRule.Narrows.row {a : RegRule} {r : ExactRule} (h : a.Narrows r) (hfit : FitsInt32 r.offset) :
    Interp.ruleToType a = Interp.ruleToType { kind := r.kind } ∧ a.offset.toInt32.toInt = r.offset := by
  obtain ⟨hkind, hoffset⟩ := h
  rw [hfit.bmod] at hoffset
  refine ⟨?_, int64_toInt32 hoffset hfit⟩
  unfold Interp.ruleToType
  rw [hkind]

theorem SavedState.Narrows.states_iff {a : SavedState} {r : ExactRules} (h : a.Narrows arch n r) {e : CFIEntry}
    (he : e.Says a) (hdef : a.cfaType ≠ .undefined) : e.States arch n r ↔ r.Fit := by
  constructor
  · intro hs
    refine ⟨?_, ?_, ?_, hs.named⟩
    · rw [← hs.cfaOffset]
      exact fitsInt32_toInt _
    · rw [← hs.fpOffset]
      exact fitsInt32_toInt _
    · rw [← hs.raOffset]
      exact fitsInt32_toInt _
  · intro hfit
    obtain ⟨hreg, hnamed⟩ := forall_mem_cons.mp hfit.named
    obtain ⟨hfp, hra⟩ := forall_mem_append.mp hnamed
    obtain ⟨hfpRule, hfpNamed⟩ := h.fp
    obtain ⟨hraRule, hraNamed⟩ := h.ra hra
    obtain ⟨hfpType, hfpOffset⟩ := hfpRule.row hfit.fpOffset
    obtain ⟨hraType, hraOffset⟩ := hraRule.row hfit.raOffset
    have hcfa := h.cfaOffset
    rw [hfit.cfaOffset.bmod] at hcfa
    refine ⟨?_, ?_, ?_, ?_, ?_, ?_, ?_, hraNamed, hfit.named⟩
    · rw [he.cfaType, h.cfaType hdef, cfaTypeFor_ofNat hreg]
    · rw [he.cfaOffset]
      exact int64_toInt32 hcfa hfit.cfaOffset
    · exact he.fpType.trans hfpType
    · rw [he.fpOffset, hfpOffset]
    · exact he.raType.trans hraType
    · rw [he.raOffset, hraOffset]
    · intro reg hreg
      have htaken : reg % 2 ^ 8 = arch.fpReg.toNat := hfpNamed reg hreg
      rw [← htaken, Nat.mod_eq_of_lt (hfp reg hreg)]

end Rules

/-! ## One emission -/

structure Lockstep.Ok (f : FDE) (arch : ArchInfo) (n : CIENumbers) (y : Lockstep) : Prop where
  cie_eq : y.interp.cie = f.cie
  arch_eq : y.interp.arch = arch
  rules : y.interp.rules.Narrows arch n y.free.rules
  initFP : NarrowsFP arch y.interp.initFPRule y.free.initFP
  initRA : NarrowsRA n y.interp.initRARule y.free.initRA
  stack : List.Forall₂ (SavedState.Narrows arch n) y.interp.stack y.free.stack
  pc : y.interp.pc.toNat = y.free.loc % 2 ^ 64
  mark : y.interp.lastEmittedPC.toNat = y.free.mark % 2 ^ 64
  length : y.interp.emitted.length = y.free.log.length
  pieces : ∀ ps ∈ y.free.log, ps ≠ []
  lastRow : ∀ e ∈ y.interp.emitted.head?, y.interp.lastState.cfaRule ≠ .expression → e.Says y.interp.lastState

namespace Lockstep

def Rows (arch : ArchInfo) (n : CIENumbers) (y : Lockstep) : Prop :=
  List.Forall₂ (RowExact arch n) y.interp.emitted y.free.log

section Emission

variable {f : FDE} {arch : ArchInfo} {n : CIENumbers} {y : Lockstep} {newPC : UInt64} {dest : Nat}

theorem Ok.grownRow_of_rules (h : y.Ok f arch n) (hemits : y.interp.Emits newPC) :
    (y.interp.grownRow newPC).Says y.interp.rules := by
  unfold Interp.grownRow
  cases hopen : y.interp.openRow with
  | none => exact ⟨rfl, rfl, rfl, rfl, rfl, rfl⟩
  | some e =>
    obtain ⟨hsame, hhead⟩ := Interp.openRow_eq_some.mp hopen
    have hs := h.lastRow e hhead (hsame ▸ hemits.2.2)
    rw [← hsame] at hs
    exact ⟨hs.1, hs.2, hs.3, hs.4, hs.5, hs.6⟩

theorem Ok.log_eq (h : y.Ok f arch n) {e : CFIEntry} (hopen : y.interp.openRow = some e) :
    y.free.log = y.openPieces :: y.closedPieces ∧ y.openPieces ≠ [] := by
  have hsome : y.interp.openRow.isSome := Option.isSome_of_eq_some hopen
  have hlength := h.length
  rw [Interp.emitted_of_openRow hopen] at hlength
  unfold openPieces closedPieces
  rw [if_pos hsome, if_pos hsome]
  cases hlog : y.free.log with
  | nil =>
    rw [hlog] at hlength
    cases hlength
  | cons ps log => exact ⟨rfl, h.pieces ps (hlog ▸ mem_cons_self)⟩

theorem log_eq_of_none (hopen : y.interp.openRow = none) : y.free.log = y.closedPieces ∧ y.openPieces = [] := by
  have hnone : ¬y.interp.openRow.isSome := by
    rw [hopen]
    exact Bool.false_ne_true
  unfold openPieces closedPieces
  rw [if_neg hnone, if_neg hnone]
  exact ⟨rfl, rfl⟩

theorem toUInt32_sub {lo hi : UInt64} {a b : Nat} (hlo : lo.toNat = a % 2 ^ 64) (hhi : hi.toNat = b % 2 ^ 64)
    (hle : a ≤ b) : (hi - lo).toUInt32.toNat = (b - a) % 2 ^ 32 := by
  have hsub : (hi - lo).toNat = (b - a) % 2 ^ 64 := by
    rw [UInt64.toNat_sub, hlo, hhi]
    omega
  rw [UInt64.toNat_toUInt32, hsub]
  omega

theorem states_extended {e : CFIEntry} {delta : UInt32} {r : ExactRules} :
    CFIEntry.States arch n { e with pcEndDelta := delta } r ↔ e.States arch n r :=
  ⟨fun h => ⟨h.1, h.2, h.3, h.4, h.5, h.6, h.7, h.8, h.9⟩, fun h => ⟨h.1, h.2, h.3, h.4, h.5, h.6, h.7, h.8, h.9⟩⟩

theorem Ok.begun_iff (h : y.Ok f arch n) (hemits : y.interp.Emits newPC) (hdest : newPC.toNat = dest % 2 ^ 64)
    (hopen : y.interp.openRow = none) :
    RowExact arch n (y.interp.grownRow newPC) [y.piece dest] ↔ y.EmissionFits dest := by
  have hstates := h.rules.states_iff (h.grownRow_of_rules hemits) hemits.2.1
  have hrow : y.interp.grownRow newPC = y.interp.newRow newPC := by
    rw [Interp.grownRow, hopen]
  obtain ⟨-, hpieces⟩ := log_eq_of_none hopen
  rw [hrow] at hstates ⊢
  have hbytes : bytes [y.piece dest] = dest - y.free.mark := rfl
  constructor
  · intro hexact
    have hstart : y.interp.lastEmittedPC.toNat = y.free.mark := hexact.start _ rfl
    have hle : y.free.mark ≤ dest := hexact.ranges _ mem_cons_self
    have hlength := hexact.length
    rw [hbytes] at hlength
    refine ⟨hstates.mp (hexact.rules _ mem_cons_self), fun _ => ?_, hle, ?_⟩
    · rw [← hstart]
      exact UInt64.toNat_lt _
    · rw [← hlength, hpieces]
      show 0 + _ < _
      have := (y.interp.newRow newPC).pcEndDelta.toNat_lt
      omega
  · rintro ⟨hfit, hmark, hle, hlt⟩
    have hlt : dest - y.free.mark < 2 ^ 32 := Nat.lt_of_le_of_lt (Nat.le_add_left _ _) hlt
    constructor
    · rintro p ⟨⟩
      show y.interp.lastEmittedPC.toNat = y.free.mark
      rw [h.mark, Nat.mod_eq_of_lt (hmark hopen)]
    · exact forall_mem_cons.mpr ⟨hle, fun _ hp => by cases hp⟩
    · rw [hbytes]
      show (newPC - y.interp.lastEmittedPC).toUInt32.toNat = _
      rw [toUInt32_sub h.mark hdest hle, Nat.mod_eq_of_lt hlt]
    · exact forall_mem_cons.mpr ⟨hstates.mpr hfit, fun _ hp => by cases hp⟩

theorem Ok.extended_iff (h : y.Ok f arch n) (hemits : y.interp.Emits newPC) (hdest : newPC.toNat = dest % 2 ^ 64)
    {e : CFIEntry} (hopen : y.interp.openRow = some e) :
    RowExact arch n (y.interp.grownRow newPC) (y.piece dest :: y.openPieces) ↔
      RowExact arch n e y.openPieces ∧ y.EmissionFits dest := by
  have hstates := h.rules.states_iff (h.grownRow_of_rules hemits) hemits.2.1
  have hrow : y.interp.grownRow newPC =
      { e with pcEndDelta := e.pcEndDelta + (newPC - y.interp.lastEmittedPC).toUInt32 } := by
    rw [Interp.grownRow, hopen]
  obtain ⟨-, hne⟩ := h.log_eq hopen
  have hlast : (y.piece dest :: y.openPieces).getLast? = y.openPieces.getLast? := by
    obtain ⟨p, ps, hps⟩ := exists_cons_of_ne_nil hne
    rw [hps, getLast?_cons_cons]
  have hbytes : bytes (y.piece dest :: y.openPieces) = dest - y.free.mark + bytes y.openPieces := rfl
  rw [hrow] at hstates ⊢
  have hadd : ∀ d : UInt32, (e.pcEndDelta + d).toNat = (e.pcEndDelta.toNat + d.toNat) % 2 ^ 32 :=
    fun d => UInt32.toNat_add _ _
  have hlt := e.pcEndDelta.toNat_lt
  constructor
  · intro hexact
    obtain ⟨hle, hranges⟩ := forall_mem_cons.mp hexact.ranges
    obtain ⟨hfirst, hrules⟩ := forall_mem_cons.mp hexact.rules
    have hle : y.free.mark ≤ dest := hle
    have hlength := hexact.length
    rw [hbytes] at hlength
    dsimp only at hlength
    rw [hadd, toUInt32_sub h.mark hdest hle] at hlength
    have hshort : (e.pcEndDelta.toNat + (dest - y.free.mark) % 2 ^ 32) % 2 ^ 32 < 2 ^ 32 :=
      Nat.mod_lt _ (by decide)
    refine ⟨⟨?_, hranges, by omega, ?_⟩, hstates.mp hfirst, fun hnone => ?_, hle, by omega⟩
    · rw [← hlast]
      exact hexact.start
    · exact fun p hp => states_extended.mp (hrules p hp)
    · rw [hopen] at hnone
      cases hnone
  · rintro ⟨hexact, hfit, -, hle, hshort⟩
    have hlength := hexact.length
    refine ⟨?_, ?_, ?_, ?_⟩
    · rw [hlast]
      exact hexact.start
    · exact forall_mem_cons.mpr ⟨hle, hexact.ranges⟩
    · rw [hbytes]
      dsimp only
      rw [hadd, toUInt32_sub h.mark hdest hle]
      omega
    · exact forall_mem_cons.mpr ⟨hstates.mpr hfit, fun p hp => states_extended.mpr (hexact.rules p hp)⟩

theorem Ok.rows_grown (h : y.Ok f arch n) (hemits : y.interp.Emits newPC) (hdest : newPC.toNat = dest % 2 ^ 64) :
    List.Forall₂ (RowExact arch n) (y.interp.grownRow newPC :: y.interp.closedRows)
        ((y.piece dest :: y.openPieces) :: y.closedPieces) ↔
      y.Rows arch n ∧ y.EmissionFits dest := by
  unfold Rows
  rw [forall₂_cons]
  cases hopen : y.interp.openRow with
  | none =>
    obtain ⟨hlog, hpieces⟩ := log_eq_of_none hopen
    rw [Interp.emitted_of_openRow_none hopen, ← hlog, hpieces, h.begun_iff hemits hdest hopen, and_comm]
  | some e =>
    obtain ⟨hlog, -⟩ := h.log_eq hopen
    rw [Interp.emitted_of_openRow hopen, hlog, forall₂_cons, h.extended_iff hemits hdest hopen]
    exact and_right_comm

theorem Ok.closed_length (h : y.Ok f arch n) : y.interp.closedRows.length = y.closedPieces.length := by
  have hlength := h.length
  cases hopen : y.interp.openRow with
  | none =>
    rw [Interp.emitted_of_openRow_none hopen, (log_eq_of_none hopen).1] at hlength
    exact hlength
  | some e =>
    rw [Interp.emitted_of_openRow hopen, (h.log_eq hopen).1] at hlength
    exact Nat.succ.inj hlength

theorem closedPieces_subset (y : Lockstep) : y.closedPieces ⊆ y.free.log := by
  unfold closedPieces
  split
  · exact tail_subset _
  · exact fun _ hp => hp

theorem Ok.move (h : y.Ok f arch n) (hdest : newPC.toNat = dest % 2 ^ 64) :
    Ok f arch n { interp := { y.interp.snapshot newPC with pc := newPC }, free := y.move newPC dest } := by
  obtain ⟨last, state, rows, hs⟩ : ∃ last state rows, y.interp.snapshot newPC =
      { y.interp with lastEmittedPC := last, lastState := state, emitted := rows } :=
    ⟨_, _, _, snapshot_frame y.interp newPC⟩
  have hrows := Interp.snapshot_emitted y.interp newPC
  have hlast := Interp.snapshot_lastEmittedPC_eq y.interp newPC
  have hstate := Interp.snapshot_lastState y.interp newPC
  rw [hs] at hrows hlast hstate ⊢
  dsimp only at hrows hlast hstate
  refine ⟨h.cie_eq, h.arch_eq, h.rules, h.initFP, h.initRA, h.stack, hdest, ?_, ?_, ?_, ?_⟩
  · show last.toNat = (if y.interp.lastEmittedPC < newPC then dest else y.free.mark) % 2 ^ 64
    rw [hlast]
    split
    · exact hdest
    · exact h.mark
  · show rows.length = (if y.interp.Emits newPC then _ else y.free.log).length
    rw [hrows]
    split
    · exact congrArg (· + 1) h.closed_length
    · exact h.length
  · show ∀ ps ∈ (if y.interp.Emits newPC then _ else y.free.log), ps ≠ []
    split
    · refine forall_mem_cons.mpr ⟨cons_ne_nil _ _, ?_⟩
      exact fun ps hps => h.pieces ps (y.closedPieces_subset hps)
    · exact h.pieces
  · show ∀ e ∈ rows.head?, state.cfaRule ≠ .expression → e.Says state
    rw [hrows]
    rcases hstate with ⟨hemits, rfl⟩ | ⟨hnot, hstate⟩
    · rw [if_pos hemits]
      rintro e ⟨⟩ -
      exact h.grownRow_of_rules hemits
    · rw [if_neg hnot]
      intro e he hmark
      rcases hstate with rfl | hstate
      · exact h.lastRow e he hmark
      · exact absurd hstate hmark

theorem Ok.rows_move (h : y.Ok f arch n) (hdest : newPC.toNat = dest % 2 ^ 64) :
    Rows arch n { interp := { y.interp.snapshot newPC with pc := newPC }, free := y.move newPC dest } ↔
      y.Rows arch n ∧ (y.interp.Emits newPC → y.EmissionFits dest) := by
  show List.Forall₂ (RowExact arch n) (y.interp.snapshot newPC).emitted
    (if y.interp.Emits newPC then _ else y.free.log) ↔ _
  rw [Interp.snapshot_emitted]
  split
  · next hemits =>
    rw [h.rows_grown hemits hdest]
    exact and_congr_right fun _ => ⟨fun hfits _ => hfits, fun hfits => hfits hemits⟩
  · next hemits => exact ⟨fun hrows => ⟨hrows, fun hemits' => absurd hemits' hemits⟩, fun hrows => hrows.1⟩

end Emission

end Lockstep

end PerfAgent.Unwind
