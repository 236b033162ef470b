import PerfAgent.Lib.Machine
import PerfAgent.Unwind.Programs
import PerfAgent.Unwind.Reference

/-!
# The rows mean what DWARF says

The interpreter against the register-rule machine.  It keeps the rules of two registers and of
the CFA; a register rule that it cannot express it does not keep at all, but marks the CFA
rule as an expression, and a row is emitted when the CFA rule is not one.  The simulation is
therefore between rules that match, and rules that are inexpressible under a mark.

The interpreter departs from the machine where the mark is cleared too early, where a row is
extended over a gap, where a register number is cut to eight bits and where a base is missing;
`Plain` is the condition on an instruction that none of this happens.
-/

namespace PerfAgent.Unwind

open List Function Outcome

/-- An FDE and its CIE, as `Compile` hands them to the interpreter. -/
structure Frame where
  cie : CIE
  arch : ArchInfo
  startPC : UInt64
  endPC : UInt64
  instructions : Slice UInt8
  /-- What the pointer encoding adds to an operand of the CIE's, and of the FDE's, program. -/
  cieBase : Int → UInt64
  fdeBase : Int → UInt64
  start_le : startPC.toNat ≤ endPC.toNat
  range_lt : endPC.toNat - startPC.toNat < 2 ^ 32

def FitsInt32 (n : Int) : Prop := -2 ^ 31 ≤ n ∧ n < 2 ^ 31

instance (n : Int) : Decidable (FitsInt32 n) := inferInstanceAs (Decidable (_ ∧ _))

/-- The offset of an instruction fits, and the address it moves to stays in the range. -/
def InRange (c : CIE) (base : Int → UInt64) (stop : UInt64) (r : Dwarf) (i : Instr) : Prop :=
  (∀ n ∈ c.offsetOf i, FitsInt32 n) ∧ ∀ pc ∈ r.target c base i, r.loc ≤ pc ∧ pc ≤ stop.toNat

instance (c : CIE) (base : Int → UInt64) (stop : UInt64) (r : Dwarf) (i : Instr) :
    Decidable (InRange c base stop r i) := inferInstanceAs (Decidable (_ ∧ _))

section Plain

variable (arch : ArchInfo) (c : CIE)

/-- Eight bits of the register number are enough to know the two registers. -/
def Tracks (reg : UInt64) : Prop :=
  (reg.toUInt8 = arch.fpReg ↔ reg = arch.fpReg.toUInt64) ∧ (reg.toUInt8.toUInt64 = c.raColumn ↔ reg = c.raColumn)

/-- Eight bits of the register number are enough to know the base of the CFA. -/
def TracksCFA (reg : UInt64) : Prop :=
  arch.cfaTypeFor reg.toUInt8 = arch.typeOf { form := .regOffset, reg := reg, offset := 0 }

def NoneInexpressible (rules : RuleSet) : Prop :=
  rules.regs arch.fpReg.toUInt64 ≠ .inexpressible ∧ rules.regs c.raColumn ≠ .inexpressible

/-- Emission up to `newPC` would extend the last row. -/
def Interp.Extends (s : Interp) (newPC : UInt64) : Prop :=
  s.lastEmittedPC < newPC ∧ s.rules.cfaType ≠ .undefined ∧ s.rules.cfaRule ≠ .expression ∧ s.rules = s.lastState

def Interp.Gapless (s : Interp) (newPC : UInt64) : Prop :=
  s.Extends newPC → ∀ e ∈ s.emitted.head?, e.pcEnd = s.lastEmittedPC.toNat

def Plain (base : Int → UInt64) (s : Interp) (r : Dwarf) : Instr → Prop
  | .advanceLoc factor => s.Gapless (s.pc + factor * c.codeAlign)
  | .setLoc newPC operand => base operand = 0 ∧ s.Gapless newPC
  | .offset reg _ => Tracks arch c reg
  | .offsetExtendedSF reg _ => Tracks arch c reg
  | .undefined reg => Tracks arch c reg
  | .sameValue reg => Tracks arch c reg
  | .register reg _ => Tracks arch c reg
  | .restore reg =>
    Tracks arch c reg ∧ (s.rules.cfaRule ≠ .expression → reg = arch.fpReg.toUInt64 ∨ reg = c.raColumn →
        r.initial reg ≠ .inexpressible)
  | .defCFA reg _ =>
    TracksCFA arch reg ∧ (arch.cfaTypeFor reg.toUInt8 ≠ .undefined → NoneInexpressible arch c r.rules)
  | .defCFASF reg _ =>
    TracksCFA arch reg ∧ (arch.cfaTypeFor reg.toUInt8 ≠ .undefined → NoneInexpressible arch c r.rules)
  | .defCFARegister reg =>
    TracksCFA arch reg ∧ (arch.cfaTypeFor reg.toUInt8 ≠ .undefined → NoneInexpressible arch c r.rules)
  | .defCFAOffset _ => s.rules.cfaType ≠ .undefined → NoneInexpressible arch c r.rules
  | .defCFAOffsetSF _ => s.rules.cfaType ≠ .undefined → NoneInexpressible arch c r.rules
  | .nop => True
  | .rememberState => True
  | .restoreState => True
  | .defCFAExpression _ => True
  | .expression _ _ => True
  | .valOffset _ => True

instance (reg : UInt64) : Decidable (Tracks arch c reg) := inferInstanceAs (Decidable (_ ∧ _))

instance (reg : UInt64) : Decidable (TracksCFA arch reg) := inferInstanceAs (Decidable (_ = _))

instance (rules : RuleSet) : Decidable (NoneInexpressible arch c rules) :=
  inferInstanceAs (Decidable (_ ∧ _))

instance (s : Interp) (newPC : UInt64) : Decidable (s.Gapless newPC) :=
  inferInstanceAs (Decidable (_ ∧ _ ∧ _ ∧ _ → _))

instance (base : Int → UInt64) (s : Interp) (r : Dwarf) (i : Instr) : Decidable (Plain arch c base s r i) :=
  match i with
  | .advanceLoc _ => inferInstanceAs (Decidable (s.Gapless _))
  | .setLoc _ _ => inferInstanceAs (Decidable (_ ∧ s.Gapless _))
  | .offset reg _ => inferInstanceAs (Decidable (Tracks arch c reg))
  | .offsetExtendedSF reg _ => inferInstanceAs (Decidable (Tracks arch c reg))
  | .undefined reg => inferInstanceAs (Decidable (Tracks arch c reg))
  | .sameValue reg => inferInstanceAs (Decidable (Tracks arch c reg))
  | .register reg _ => inferInstanceAs (Decidable (Tracks arch c reg))
  | .restore reg =>
    inferInstanceAs (Decidable (Tracks arch c reg ∧ (s.rules.cfaRule ≠ .expression →
      reg = arch.fpReg.toUInt64 ∨ reg = c.raColumn → r.initial reg ≠ .inexpressible)))
  | .defCFA reg _ => inferInstanceAs (Decidable (TracksCFA arch reg ∧ (_ → NoneInexpressible arch c _)))
  | .defCFASF reg _ => inferInstanceAs (Decidable (TracksCFA arch reg ∧ (_ → NoneInexpressible arch c _)))
  | .defCFARegister reg =>
    inferInstanceAs (Decidable (TracksCFA arch reg ∧ (_ → NoneInexpressible arch c _)))
  | .defCFAOffset _ => inferInstanceAs (Decidable (_ → NoneInexpressible arch c _))
  | .defCFAOffsetSF _ => inferInstanceAs (Decidable (_ → NoneInexpressible arch c _))
  | .nop => .isTrue trivial
  | .rememberState => .isTrue trivial
  | .restoreState => .isTrue trivial
  | .defCFAExpression _ => .isTrue trivial
  | .expression _ _ => .isTrue trivial
  | .valOffset _ => .isTrue trivial

end Plain

/-! ## Rules that correspond -/

def RegRule.Matches (a : RegRule) : Rule → Prop
  | .undefined => a.kind = .undefined
  | .sameValue => a.kind = .sameValue
  | .offset n => a.kind = .offset ∧ a.offset.toInt = n ∧ FitsInt32 n
  | .register _ => a.kind = .register
  | .inexpressible => False

/-- What the interpreter keeps of a rule: the rule, or a mark on the CFA rule. -/
def Kept (mark : RuleKind) (a : RegRule) (b : Rule) : Prop :=
  a.Matches b ∨ b = .inexpressible ∧ mark = .expression

structure SameRules (arch : ArchInfo) (c : CIE) (tainted : Bool) (a : SavedState) (b : RuleSet) : Prop where
  cfaType : a.cfaType = arch.typeOf b.cfa
  cfaOffset : a.cfaOffset.toInt = b.cfa.offset
  cfaFits : FitsInt32 b.cfa.offset
  fp : Kept a.cfaRule a.fpRule (b.regs arch.fpReg.toUInt64)
  ra : Kept a.cfaRule a.raRule (b.regs c.raColumn)
  /-- Nothing but an inexpressible register rule marks a CFA rule that has a type. -/
  clean : tainted = false → a.cfaType ≠ .undefined → a.cfaRule ≠ .expression

variable {mark : RuleKind}

theorem Kept.matches {a : RegRule} {b : Rule} (h : Kept mark a b) (hb : b ≠ .inexpressible) :
    a.Matches b := h.resolve_right fun h' => hb h'.1

theorem Kept.of_mark {a : RegRule} {b : Rule} (h : Kept mark a b) (hm : mark ≠ .expression) :
    a.Matches b := h.resolve_right fun h' => hm h'.2

theorem Kept.marked {a : RegRule} {b : Rule} (h : Kept mark a b) :
    Kept .expression a b := h.imp_right fun h' => ⟨h'.1, rfl⟩

theorem int64_toInt32 {n : Int64} {m : Int} (h : n.toInt = m) (hm : FitsInt32 m) : n.toInt32.toInt = m := by
  obtain ⟨hlo, hhi⟩ := hm
  rw [Int64.toInt_toInt32, h]
  refine Int.bmod_eq_of_le ?_ ?_ <;> omega

theorem RegRule.Matches.saidBy {a : RegRule} {b : Rule} (h : a.Matches b) :
    b.SaidBy (Interp.ruleToType a) a.offset.toInt32 := by
  cases b with
  | undefined =>
    show Interp.ruleToType a = .undefined
    rw [Interp.ruleToType, show a.kind = _ from h]
  | sameValue =>
    show Interp.ruleToType a = .sameValue
    rw [Interp.ruleToType, show a.kind = _ from h]
  | offset n =>
    obtain ⟨hk, ho, hn⟩ := h
    refine ⟨?_, int64_toInt32 ho hn⟩
    rw [Interp.ruleToType, hk]
  | register reg =>
    show Interp.ruleToType a = .register
    rw [Interp.ruleToType, show a.kind = _ from h]
  | inexpressible => exact h.elim

structure CFIEntry.Says (e : CFIEntry) (a : SavedState) : Prop where
  cfaType : e.cfaType = a.cfaType
  cfaOffset : e.cfaOffset = a.cfaOffset.toInt32
  fpType : e.fpType = Interp.fpRuleToType a.fpRule
  fpOffset : e.fpOffset = a.fpRule.offset.toInt32
  raType : e.raType = Interp.raRuleToType a.raRule
  raOffset : e.raOffset = a.raRule.offset.toInt32

section Rules

variable {arch : ArchInfo} {c : CIE} {t : Bool} {a : SavedState} {b : RuleSet}

theorem SameRules.describes (h : SameRules arch c t a b) {e : CFIEntry} (he : e.Says a)
    (htype : a.cfaType ≠ .undefined) (hmark : a.cfaRule ≠ .expression) : e.Describes arch c b where
  cfaDefined := he.cfaType ▸ htype
  cfaType := he.cfaType.trans h.cfaType
  cfaOffset := by
    rw [he.cfaOffset]
    exact int64_toInt32 h.cfaOffset h.cfaFits
  fp := by
    rw [he.fpType, he.fpOffset]
    exact (h.fp.of_mark hmark).saidBy
  ra := by
    rw [he.raType, he.raOffset]
    exact (h.ra.of_mark hmark).saidBy

theorem SameRules.emits (h : SameRules arch c t a b) (hb : b.Expressible arch c) (ht : t = false) :
    a.cfaType ≠ .undefined ∧ a.cfaRule ≠ .expression := by
  have htype : a.cfaType ≠ .undefined := h.cfaType ▸ hb.cfa
  exact ⟨htype, h.clean ht htype⟩

theorem SameRules.mono (h : SameRules arch c t a b) {t' : Bool} (ht : t' = false → t = false) :
    SameRules arch c t' a b :=
  { h with clean := fun h' => h.clean (ht h') }

/-- The CFA rule changes; the mark is set, or there is nothing that it would have to stand for. -/
theorem SameRules.setCFA (h : SameRules arch c t a b) {type : CFAType} {offset : Int64} {cfa : CFARule}
    (htype : type = arch.typeOf cfa) (hoff : offset.toInt = cfa.offset) (hfits : FitsInt32 cfa.offset)
    (hmark : mark = .expression ∨ mark = a.cfaRule ∨ NoneInexpressible arch c b)
    (hclean : t = false → type ≠ .undefined → mark ≠ .expression) :
    SameRules arch c t { a with cfaType := type, cfaOffset := offset, cfaRule := mark } { b with cfa := cfa } := by
  refine ⟨htype, hoff, hfits, ?_, ?_, hclean⟩
  · obtain rfl | rfl | ⟨hfp, -⟩ := hmark
    · exact h.fp.marked
    · exact h.fp
    · exact .inl (h.fp.matches hfp)
  · obtain rfl | rfl | ⟨-, hra⟩ := hmark
    · exact h.ra.marked
    · exact h.ra
    · exact .inl (h.ra.matches hra)

theorem SameRules.setInexpressible (h : SameRules arch c t a b) (reg : UInt64) :
    SameRules arch c true { a with cfaRule := .expression } { b with regs := update b.regs reg .inexpressible } := by
  refine ⟨h.cfaType, h.cfaOffset, h.cfaFits, ?_, ?_, nofun⟩
  all_goals
    dsimp only
    rw [update_apply]
    split
    · exact .inr ⟨rfl, rfl⟩
  · exact h.fp.marked
  · exact h.ra.marked

theorem SameRules.setRule (h : SameRules arch c t a b) {reg : UInt64} {rule : Rule} {fp ra : RegRule}
    (hfp : if reg = arch.fpReg.toUInt64 then Kept a.cfaRule fp rule else fp = a.fpRule)
    (hra : if reg = c.raColumn then Kept a.cfaRule ra rule else ra = a.raRule) :
    SameRules arch c t { a with fpRule := fp, raRule := ra } { b with regs := update b.regs reg rule } := by
  refine ⟨h.cfaType, h.cfaOffset, h.cfaFits, ?_, ?_, h.clean⟩
  · dsimp only
    by_cases heq : reg = arch.fpReg.toUInt64
    · rw [if_pos heq] at hfp
      rw [heq, update_self]
      exact hfp
    · rw [if_neg heq] at hfp
      rw [update_of_ne (Ne.symm heq), hfp]
      exact h.fp
  · dsimp only
    by_cases heq : reg = c.raColumn
    · rw [if_pos heq] at hra
      rw [heq, update_self]
      exact hra
    · rw [if_neg heq] at hra
      rw [update_of_ne (Ne.symm heq), hra]
      exact h.ra

end Rules

/-! ## Rows and segments -/

variable {g : Segment}

theorem segmentAt_cons_of_mem {table : List Segment} {pc : Nat} (hlo : g.lo ≤ pc) (hhi : pc < g.hi) :
    segmentAt (g :: table) pc = some g :=
  find?_cons_of_pos (by simp [hlo, hhi])

theorem segmentAt_cons_of_lt {table : List Segment} {pc : Nat} (h : pc < g.lo) :
    segmentAt (g :: table) pc = segmentAt table pc :=
  find?_cons_of_neg (by simp [Nat.not_le.mpr h])

theorem segmentAt_cons {g' : Segment} {table : List Segment} {pc : Nat} (h : segmentAt (g :: table) pc = some g') :
    g' = g ∧ g.lo ≤ pc ∧ pc < g.hi ∨ segmentAt table pc = some g' := by
  by_cases hg : g.lo ≤ pc ∧ pc < g.hi
  · rw [segmentAt_cons_of_mem hg.1 hg.2] at h
    exact .inl ⟨(Option.some.inj h).symm, hg⟩
  · rw [segmentAt, find?_cons_of_neg (by simpa using hg)] at h
    exact .inr h

structure Tabled (arch : ArchInfo) (c : CIE) (start : Nat) (emitted : List CFIEntry)
    (lastState : EmittedState) (loc : Nat) (table : List Segment) : Prop where
  rows : ∀ e ∈ emitted, start ≤ e.pcStart.toNat ∧ e.pcEnd ≤ loc
  sound : ∀ e ∈ emitted, ∀ pc, e.Covers pc → ∃ g, segmentAt table pc = some g ∧ e.Describes arch c g.rules
  complete : ∀ pc g, segmentAt table pc = some g → g.rules.Expressible arch c → g.tainted = false →
    ∃ e ∈ emitted, e.Covers pc
  /-- The last row says what the last state is, unless an expression has come after it. -/
  last : ∀ e ∈ emitted.head?, lastState.cfaRule ≠ .expression → e.Says lastState

namespace Tabled

variable {arch : ArchInfo} {c : CIE} {start : Nat} {emitted : List CFIEntry} {last last' : EmittedState}
  {loc loc' : Nat} {table : List Segment} {rules : RuleSet} {t : Bool}

theorem sound_cons (h : Tabled arch c start emitted last loc table) (hg : g.lo = loc) :
    ∀ e ∈ emitted, ∀ pc, e.Covers pc → ∃ g', segmentAt (g :: table) pc = some g' ∧ e.Describes arch c g'.rules := by
  intro e he pc hpc
  have hlt : pc < g.lo := by
    rw [hg]
    exact lt_of_lt_of_le hpc.2 (h.rows e he).2
  rw [segmentAt_cons_of_lt hlt]
  exact h.sound e he pc hpc

theorem skip (h : Tabled arch c start emitted last loc table) (hle : loc ≤ loc')
    (hnone : loc < loc' → rules.Expressible arch c → t = false → False)
    (hlast : last' = last ∨ last'.cfaRule = .expression) :
    Tabled arch c start emitted last' loc' ({ lo := loc, hi := loc', rules := rules, tainted := t } :: table) where
  rows e he := ⟨(h.rows e he).1, le_trans (h.rows e he).2 hle⟩
  sound := h.sound_cons rfl
  complete := by
    intro pc g hg hexp ht
    obtain ⟨rfl, hlo, hhi⟩ | hold := segmentAt_cons hg
    · exact (hnone (lt_of_le_of_lt hlo hhi) hexp ht).elim
    · exact h.complete pc g hold hexp ht
  last e he hne := by
    obtain rfl | hexpr := hlast
    · exact h.last e he hne
    · exact (hne hexpr).elim

theorem append (h : Tabled arch c start emitted last loc table) (hle : loc ≤ loc') (hstart : start ≤ loc)
    {e : CFIEntry} (hlo : e.pcStart.toNat = loc) (hhi : e.pcEnd = loc') (hd : e.Describes arch c rules)
    (hs : e.Says last') :
    Tabled arch c start (e :: emitted) last' loc'
      ({ lo := loc, hi := loc', rules := rules, tainted := t } :: table) where
  rows e' he' := by
    obtain rfl | he' := mem_cons.mp he'
    · exact ⟨hlo ▸ hstart, le_of_eq hhi⟩
    · exact ⟨(h.rows e' he').1, le_trans (h.rows e' he').2 hle⟩
  sound := by
    intro e' he' pc hpc
    obtain rfl | he' := mem_cons.mp he'
    · exact ⟨_, segmentAt_cons_of_mem (hlo ▸ hpc.1) (hhi ▸ hpc.2), hd⟩
    · exact h.sound_cons rfl e' he' pc hpc
  complete := by
    intro pc g hg hexp ht
    obtain ⟨rfl, hlo', hhi'⟩ | hold := segmentAt_cons hg
    · exact ⟨e, mem_cons_self, ⟨le_of_eq_of_le hlo hlo', lt_of_lt_of_eq hhi' hhi.symm⟩⟩
    · obtain ⟨e', he', hpc⟩ := h.complete pc g hold hexp ht
      exact ⟨e', mem_cons_of_mem e he', hpc⟩
  last e' he' _ := by
    cases he'
    exact hs

theorem extend {e e' : CFIEntry} (h : Tabled arch c start (e :: emitted) last loc table) (hle : loc ≤ loc')
    (hend : e.pcEnd = loc) (hlo : e'.pcStart = e.pcStart) (hhi : e'.pcEnd = loc')
    (hd : ∀ rules, e.Describes arch c rules → e'.Describes arch c rules)
    (hd' : e'.Describes arch c rules) (hs : e'.Says last) :
    Tabled arch c start (e' :: emitted) last loc'
      ({ lo := loc, hi := loc', rules := rules, tainted := t } :: table) where
  rows e'' he'' := by
    obtain rfl | he'' := mem_cons.mp he''
    · rw [hlo]
      exact ⟨(h.rows e mem_cons_self).1, le_of_eq hhi⟩
    · have := h.rows e'' (mem_cons_of_mem e he'')
      exact ⟨this.1, le_trans this.2 hle⟩
  sound := by
    intro e'' he'' pc hpc
    obtain rfl | he'' := mem_cons.mp he''
    · by_cases hold : pc < loc
      · have hcov : e.Covers pc := ⟨hlo ▸ hpc.1, hend ▸ hold⟩
        obtain ⟨g, hg, hdesc⟩ :=
          h.sound_cons (g := ⟨loc, loc', rules, t⟩) rfl e mem_cons_self pc hcov
        exact ⟨g, hg, hd _ hdesc⟩
      · exact ⟨_, segmentAt_cons_of_mem (Nat.not_lt.mp hold) (hhi ▸ hpc.2), hd'⟩
    · exact h.sound_cons rfl e'' (mem_cons_of_mem e he'') pc hpc
  complete := by
    intro pc g hg hexp ht
    obtain ⟨rfl, hlo', hhi'⟩ | hold := segmentAt_cons hg
    · have hstart : e.pcStart.toNat ≤ loc := hend ▸ Nat.le_add_right _ _
      exact ⟨e', mem_cons_self, ⟨hlo ▸ le_trans hstart hlo', lt_of_lt_of_eq hhi' hhi.symm⟩⟩
    · obtain ⟨e'', he'', hpc⟩ := h.complete pc g hold hexp ht
      obtain rfl | he'' := mem_cons.mp he''
      · have hlt : pc < e'.pcEnd := lt_of_lt_of_le (hend ▸ hpc.2) (hhi ▸ hle)
        exact ⟨e', mem_cons_self, ⟨hlo ▸ hpc.1, hlt⟩⟩
      · exact ⟨e'', mem_cons_of_mem e' he'', hpc⟩
  last e'' he'' _ := by
    cases he''
    exact hs

end Tabled

/-! ## One emission -/

theorem snapshot_lastEmittedPC {s : Interp} {newPC : UInt64} (h : s.lastEmittedPC ≤ newPC) :
    (s.snapshot newPC).lastEmittedPC = newPC := by
  unfold Interp.snapshot
  split
  · next hle => exact UInt64.le_antisymm h hle
  · split
    · rfl
    · split
      · rfl
      · dsimp only
        split
        · rfl
        · split <;> rfl

theorem delta_toNat {lo hi : UInt64} (hle : lo.toNat ≤ hi.toNat) (hlt : hi.toNat - lo.toNat < 2 ^ 32) :
    (hi - lo).toUInt32.toNat = hi.toNat - lo.toNat := by
  have hsub : (hi - lo).toNat = hi.toNat - lo.toNat := UInt64.toNat_sub_of_le hi lo hle
  rw [UInt64.toNat_toUInt32, hsub, Nat.mod_eq_of_lt hlt]

theorem extended_pcEnd {e : CFIEntry} {lo hi : UInt64} (hend : e.pcEnd = lo.toNat)
    (hle : lo.toNat ≤ hi.toNat) (hlt : hi.toNat - e.pcStart.toNat < 2 ^ 32) :
    CFIEntry.pcEnd { e with pcEndDelta := e.pcEndDelta + (hi - lo).toUInt32 } = hi.toNat := by
  unfold CFIEntry.pcEnd at hend ⊢
  dsimp only
  rw [UInt32.toNat_add, delta_toNat hle (by omega), Nat.mod_eq_of_lt (by omega)]
  omega

theorem Tabled.snapshot {arch : ArchInfo} {c : CIE} {start : Nat} {s : Interp} {table : List Segment}
    {rules : RuleSet} {t : Bool} {newPC : UInt64}
    (h : Tabled arch c start s.emitted s.lastState s.lastEmittedPC.toNat table)
    (hr : SameRules arch c t s.rules rules) (hgap : s.Gapless newPC)
    (hle : s.lastEmittedPC ≤ newPC) (hstart : start ≤ s.lastEmittedPC.toNat)
    (hlt : newPC.toNat - start < 2 ^ 32) :
    Tabled arch c start (s.snapshot newPC).emitted (s.snapshot newPC).lastState newPC.toNat
      ({ lo := s.lastEmittedPC.toNat, hi := newPC.toNat, rules := rules, tainted := t } :: table) := by
  have hle' : s.lastEmittedPC.toNat ≤ newPC.toNat := hle
  unfold Interp.snapshot
  split
  · next hge =>
    -- an empty range
    have hge' : newPC.toNat ≤ s.lastEmittedPC.toNat := hge
    exact h.skip hle' (fun hpos => absurd hpos (Nat.not_lt.mpr hge')) (.inl rfl)
  · next hpos =>
    split
    · next hundef =>
      exact h.skip hle' (fun _ hexp ht => (hr.emits hexp ht).1 hundef.1) (.inl rfl)
    · next hdef =>
      split
      · next hmark =>
        exact h.skip hle' (fun _ hexp ht => (hr.emits hexp ht).2 hmark) (.inr hmark)
      · next hmark =>
        have htype : s.rules.cfaType ≠ .undefined := fun heq => hdef ⟨heq, hmark⟩
        have hdelta := delta_toNat hle' (by omega)
        have hend : s.lastEmittedPC.toNat + (newPC - s.lastEmittedPC).toUInt32.toNat = newPC.toNat := by
          omega
        dsimp only
        split
        · next hnil =>
          rw [hnil] at h
          refine h.append hle' hstart rfl hend ?_ ?_
          · exact hr.describes ⟨rfl, rfl, rfl, rfl, rfl, rfl⟩ htype hmark
          · exact ⟨rfl, rfl, rfl, rfl, rfl, rfl⟩
        · next e es hcons =>
          split
          · next hsame =>
            have hext : s.Extends newPC := ⟨UInt64.not_le.mp hpos, htype, hmark, hsame⟩
            have hat : e.pcEnd = s.lastEmittedPC.toNat := hgap hext e (by rw [hcons]; rfl)
            have hclaim : e.Says s.lastState := h.last e (by rw [hcons]; rfl) (hsame ▸ hmark)
            have hclaim' : CFIEntry.Says
                { e with pcEndDelta := e.pcEndDelta + (newPC - s.lastEmittedPC).toUInt32 } s.lastState :=
              ⟨hclaim.1, hclaim.2, hclaim.3, hclaim.4, hclaim.5, hclaim.6⟩
            rw [hcons] at h
            have hfrom := (h.rows e mem_cons_self).1
            refine h.extend hle' hat rfl (extended_pcEnd hat hle' (by omega)) ?_ ?_ hclaim'
            · intro rules hd
              exact ⟨hd.1, hd.2, hd.3, hd.4, hd.5⟩
            · rw [← hsame] at hclaim'
              exact hr.describes hclaim' htype hmark
          · rw [hcons] at h
            refine h.append hle' hstart rfl hend ?_ ?_
            · exact hr.describes ⟨rfl, rfl, rfl, rfl, rfl, rfl⟩ htype hmark
            · exact ⟨rfl, rfl, rfl, rfl, rfl, rfl⟩

/-! ## One instruction -/

theorem FitsInt32.bmod {n : Int} (h : FitsInt32 n) : n.bmod (2 ^ 64) = n := by
  obtain ⟨hlo, hhi⟩ := h
  refine Int.bmod_eq_of_le ?_ ?_ <;> omega

theorem toInt_unsigned {x : UInt64} (h : FitsInt32 x.toNat) : x.toInt64.toInt = x.toNat := by
  rw [toInt_toInt64, h.bmod]

theorem toInt_factored {x y : Int64} {m : Int} (hx : x.toInt = m.bmod (2 ^ 64))
    (h : FitsInt32 (m * y.toInt)) : (x * y).toInt = m * y.toInt := by
  rw [Int64.toInt_mul, hx, Int.bmod_mul_bmod, h.bmod]

theorem toInt_signed {x y : Int64} (h : FitsInt32 (x.toInt * y.toInt)) : (x * y).toInt = x.toInt * y.toInt := by
  rw [Int64.toInt_mul, h.bmod]

structure Follows (arch : ArchInfo) (c : CIE) (start : Nat) (s : Interp) (r : Dwarf) : Prop where
  arch_eq : s.arch = arch
  cie_eq : s.cie = c
  loc : s.lastEmittedPC.toNat = r.loc
  pc : s.pc = s.lastEmittedPC
  start_le : start ≤ r.loc
  rules : SameRules arch c r.tainted s.rules r.rules
  initFP : Kept .expression s.initFPRule (r.initial arch.fpReg.toUInt64)
  initRA : Kept .expression s.initRARule (r.initial c.raColumn)
  stack : List.Forall₂ (SameRules arch c r.tainted) s.stack r.saved
  table : Tabled arch c start s.emitted s.lastState s.lastEmittedPC.toNat r.table

namespace Follows

variable {arch : ArchInfo} {c : CIE} {start : Nat} {s s' : Interp} {r : Dwarf}

theorem setRules (h : Follows arch c start s r) {a : SavedState} {b : RuleSet} {t : Bool}
    (ht : t = false → r.tainted = false) (hr : SameRules arch c t a b) :
    Follows arch c start { s with rules := a } { r with rules := b, tainted := t } :=
  { h with
    rules := hr
    stack := h.stack.imp fun _ _ hs => hs.mono ht }

theorem setCFA (h : Follows arch c start s r) {type : CFAType} {offset : Int64} {mark : RuleKind}
    {cfa : CFARule} (htype : type = arch.typeOf cfa) (hoff : offset.toInt = cfa.offset)
    (hfits : FitsInt32 cfa.offset)
    (hmark : mark = .expression ∨ mark = s.rules.cfaRule ∨ NoneInexpressible arch c r.rules)
    (hclean : r.tainted = false → type ≠ .undefined → mark ≠ .expression) :
    Follows arch c start { s with rules := { s.rules with cfaType := type, cfaOffset := offset, cfaRule := mark } }
      (r.setCFA cfa) :=
  h.setRules id (h.rules.setCFA htype hoff hfits hmark hclean)

theorem setCFAReg (h : Follows arch c start s r) {reg : UInt64} {offset : Int64} {off : Int} (hreg : TracksCFA arch reg)
    (hnone : arch.cfaTypeFor reg.toUInt8 ≠ .undefined → NoneInexpressible arch c r.rules)
    (hoff : offset.toInt = off) (hfits : FitsInt32 off) :
    Follows arch c start (s.setCFA reg.toUInt8 offset)
      (r.setCFA { form := .regOffset, reg := reg, offset := off }) := by
  obtain rfl := h.arch_eq
  refine h.setCFA hreg hoff hfits ?_ ?_
  · by_cases htype : s.arch.cfaTypeFor reg.toUInt8 = .undefined
    · exact .inl (if_pos htype)
    · exact .inr (.inr (hnone htype))
  · intro _ htype
    have hmark : (s.setCFAReg reg.toUInt8).rules.cfaRule = .sameValue := if_neg htype
    rw [hmark]
    decide

theorem setCFAOffset (h : Follows arch c start s r) {offset : Int64} {off : Int}
    (hnone : s.rules.cfaType ≠ .undefined → NoneInexpressible arch c r.rules)
    (hoff : offset.toInt = off) (hfits : FitsInt32 off) :
    Follows arch c start (s.setCFAOffset offset) (r.setCFA { r.rules.cfa with offset := off }) := by
  refine h.setCFA h.rules.cfaType hoff hfits ?_ ?_
  · by_cases htype : s.rules.cfaType = .undefined
    · exact .inr (.inl (if_pos htype))
    · exact .inr (.inr (hnone htype))
  · intro _ htype
    rw [if_neg htype]
    decide

theorem setInexpressible (h : Follows arch c start s r) (reg : UInt64) :
    Follows arch c start s.setExpression { r.setRule reg .inexpressible with tainted := true } :=
  h.setRules (b := { r.rules with regs := update r.rules.regs reg .inexpressible }) nofun (h.rules.setInexpressible reg)

theorem setRule (h : Follows arch c start s r) (hcol : arch.fpReg.toUInt64 ≠ c.raColumn) {reg : UInt64}
    (hreg : Tracks arch c reg) {fp ra : RegRule} {rule : Rule}
    (hfp : reg = arch.fpReg.toUInt64 → Kept s.rules.cfaRule fp rule)
    (hra : reg = c.raColumn → Kept s.rules.cfaRule ra rule)
    (hs' : s' = if reg.toUInt8 = s.arch.fpReg then { s with rules := { s.rules with fpRule := fp } }
      else if reg.toUInt8.toUInt64 = s.cie.raColumn then { s with rules := { s.rules with raRule := ra } }
      else s) :
    Follows arch c start s' (r.setRule reg rule) := by
  obtain rfl := h.arch_eq
  obtain rfl := h.cie_eq
  by_cases hisfp : reg = s.arch.fpReg.toUInt64
  · rw [if_pos (hreg.1.mpr hisfp)] at hs'
    subst hs'
    refine h.setRules id (h.rules.setRule ?_ ?_)
    · rw [if_pos hisfp]
      exact hfp hisfp
    · rw [if_neg fun heq => hcol (hisfp.symm.trans heq)]
  · rw [if_neg fun heq => hisfp (hreg.1.mp heq)] at hs'
    by_cases hisra : reg = s.cie.raColumn
    · rw [if_pos (hreg.2.mpr hisra)] at hs'
      subst hs'
      refine h.setRules id (h.rules.setRule ?_ ?_)
      · rw [if_neg hisfp]
      · rw [if_pos hisra]
        exact hra hisra
    · rw [if_neg fun heq => hisra (hreg.2.mp heq)] at hs'
      subst hs'
      refine h.setRules id (h.rules.setRule ?_ ?_)
      · rw [if_neg hisfp]
      · rw [if_neg hisra]

theorem setRegRule (h : Follows arch c start s r) (hcol : arch.fpReg.toUInt64 ≠ c.raColumn) {reg : UInt64}
    (hreg : Tracks arch c reg) {a : RegRule} {rule : Rule} (ha : a.Matches rule) :
    Follows arch c start (s.setRegRule reg.toUInt8 a) (r.setRule reg rule) :=
  h.setRule hcol hreg (fun _ => .inl ha) (fun _ => .inl ha) rfl

theorem restoreRegInitial (h : Follows arch c start s r) (hcol : arch.fpReg.toUInt64 ≠ c.raColumn)
    {reg : UInt64} (hreg : Tracks arch c reg)
    (hinit : s.rules.cfaRule ≠ .expression → reg = arch.fpReg.toUInt64 ∨ reg = c.raColumn →
      r.initial reg ≠ .inexpressible) :
    Follows arch c start (s.restoreRegInitial reg.toUInt8) (r.setRule reg (r.initial reg)) := by
  have hkept : ∀ {a : RegRule}, (reg = arch.fpReg.toUInt64 ∨ reg = c.raColumn) →
      Kept .expression a (r.initial reg) → Kept s.rules.cfaRule a (r.initial reg) := by
    intro a hor ha
    by_cases hmark : s.rules.cfaRule = .expression
    · rw [hmark]
      exact ha
    · exact .inl (ha.matches (hinit hmark hor))
  refine h.setRule hcol hreg ?_ ?_ rfl
  · intro heq
    exact hkept (.inl heq) (heq ▸ h.initFP)
  · intro heq
    exact hkept (.inr heq) (heq ▸ h.initRA)

theorem advance (h : Follows arch c start s r) {newPC : UInt64} (hgap : s.Gapless newPC)
    (hle : r.loc ≤ newPC.toNat) (hlt : newPC.toNat - start < 2 ^ 32) :
    Follows arch c start { s.snapshot newPC with pc := newPC } (r.advance newPC.toNat) := by
  have hle' : s.lastEmittedPC ≤ newPC := show s.lastEmittedPC.toNat ≤ newPC.toNat from h.loc ▸ hle
  have htable := h.table.snapshot h.rules hgap hle' (h.loc ▸ h.start_le) hlt
  have hlast := snapshot_lastEmittedPC hle'
  rw [h.loc] at htable
  rw [snapshot_frame]
  exact
    { arch_eq := h.arch_eq
      cie_eq := h.cie_eq
      loc := congrArg UInt64.toNat hlast
      pc := hlast.symm
      start_le := le_trans h.start_le hle
      rules := h.rules
      initFP := h.initFP
      initRA := h.initRA
      stack := h.stack
      table := by
        dsimp only [Dwarf.advance]
        rw [hlast]
        exact htable }

theorem step (h : Follows arch c start s r) (hcol : arch.fpReg.toUInt64 ≠ c.raColumn)
    {base : Int → UInt64} {stop : UInt64} (hstop : stop.toNat - start < 2 ^ 32) {i : Instr}
    (hin : InRange c base stop r i) (hplain : Plain arch c base s r i) (hexec : exec s i = .ok s') :
    ∃ r', r.step c base i = some r' ∧ Follows arch c start s' r' := by
  obtain ⟨hfits, hmove⟩ := hin
  cases i with
  | nop =>
    cases hexec
    exact ⟨r, rfl, h⟩
  | advanceLoc factor =>
    cases hexec
    obtain ⟨hle, hle'⟩ := hmove _ rfl
    have hlt := stop.toNat_lt
    have hpc : (s.pc + factor * s.cie.codeAlign).toNat = r.loc + factor.toNat * c.codeAlign.toNat := by
      rw [UInt64.toNat_add, UInt64.toNat_mul, h.pc, h.loc, h.cie_eq, Nat.add_mod_mod]
      exact Nat.mod_eq_of_lt (by omega)
    have hgap : s.Gapless (s.pc + factor * s.cie.codeAlign) := h.cie_eq ▸ hplain
    refine ⟨_, rfl, ?_⟩
    rw [← hpc] at hle hle' ⊢
    rw [snapshotAndAdvance_eq]
    exact h.advance hgap hle (by omega)
  | setLoc newPC operand =>
    obtain ⟨hbase, hgap⟩ := hplain
    rw [exec] at hexec
    split at hexec
    · cases hexec
    · cases hexec
      have htarget : (newPC + base operand).toNat = newPC.toNat := by rw [hbase, UInt64.add_zero]
      have hback : s.pc + (newPC - s.pc) = newPC := by rw [UInt64.add_comm, UInt64.sub_add_cancel]
      obtain ⟨hle, hle'⟩ := hmove _ rfl
      refine ⟨_, rfl, ?_⟩
      rw [htarget] at hle hle' ⊢
      rw [snapshotAndAdvance_eq, hback]
      exact h.advance hgap hle (by omega)
  | offset reg factor =>
    cases hexec
    have hn := hfits _ rfl
    refine ⟨_, rfl, h.setRegRule hcol hplain ⟨rfl, ?_, hn⟩⟩
    rw [h.cie_eq]
    exact toInt_factored (toInt_toInt64 factor) hn
  | offsetExtendedSF reg factor =>
    cases hexec
    have hn := hfits _ rfl
    refine ⟨_, rfl, h.setRegRule hcol hplain ⟨rfl, ?_, hn⟩⟩
    rw [h.cie_eq]
    exact toInt_signed hn
  | restore reg =>
    cases hexec
    exact ⟨_, rfl, h.restoreRegInitial hcol hplain.1 hplain.2⟩
  | undefined reg =>
    cases hexec
    exact ⟨_, rfl, h.setRegRule hcol hplain rfl⟩
  | sameValue reg =>
    cases hexec
    exact ⟨_, rfl, h.setRegRule hcol hplain rfl⟩
  | register reg other =>
    cases hexec
    exact ⟨_, rfl, h.setRegRule hcol hplain rfl⟩
  | rememberState =>
    rw [exec] at hexec
    split at hexec
    · cases hexec
    · cases hexec
      exact ⟨_, rfl, { h with stack := .cons h.rules h.stack }⟩
  | restoreState =>
    have hstack := h.stack
    rw [exec] at hexec
    split at hexec
    · cases hexec
    · next saved stack heq =>
      cases hexec
      rw [heq] at hstack
      obtain ⟨rules, rest, hrules, hrest, hsaved⟩ := forall₂_cons_left_iff.mp hstack
      refine ⟨{ r with rules := rules, saved := rest }, ?_, { h with rules := hrules, stack := hrest }⟩
      rw [Dwarf.step, hsaved]
  | defCFA reg off =>
    cases hexec
    have hn := hfits _ rfl
    exact ⟨_, rfl, h.setCFAReg hplain.1 hplain.2 (toInt_unsigned hn) hn⟩
  | defCFASF reg off =>
    cases hexec
    have hn := hfits _ rfl
    refine ⟨_, rfl, h.setCFAReg hplain.1 hplain.2 ?_ hn⟩
    rw [h.cie_eq]
    exact toInt_signed hn
  | defCFARegister reg =>
    cases hexec
    exact ⟨_, rfl, h.setCFAReg hplain.1 hplain.2 h.rules.cfaOffset h.rules.cfaFits⟩
  | defCFAOffset off =>
    cases hexec
    have hn := hfits _ rfl
    exact ⟨_, rfl, h.setCFAOffset hplain (toInt_unsigned hn) hn⟩
  | defCFAOffsetSF off =>
    cases hexec
    have hn := hfits _ rfl
    refine ⟨_, rfl, h.setCFAOffset hplain ?_ hn⟩
    rw [h.cie_eq]
    exact toInt_signed hn
  | defCFAExpression length =>
    cases hexec
    refine ⟨_, rfl, h.setCFA rfl h.rules.cfaOffset h.rules.cfaFits (.inl rfl) ?_⟩
    intro _ htype
    exact (htype rfl).elim
  | expression reg length =>
    cases hexec
    exact ⟨_, rfl, h.setInexpressible reg⟩
  | valOffset reg =>
    cases hexec
    exact ⟨_, rfl, h.setInexpressible reg⟩

end Follows

/-! ## Whole programs -/

def Dwarf.next (c : CIE) (base : Int → UInt64) (x : Option Dwarf) (i : Instr) : Option Dwarf :=
  x.bind fun r => r.step c base i

/-- The interpreter and the machine side by side, until one of them cannot go on. -/
def both (c : CIE) (base : Int → UInt64) (x : Option (Interp × Dwarf)) (i : Instr) : Option (Interp × Dwarf) :=
  x.bind fun y =>
    match exec y.1 i, y.2.step c base i with
    | .ok s, some r => some (s, r)
    | _, _ => none

namespace Frame

variable (f : Frame)

def machine : Dwarf := .start f.arch f.startPC.toNat

def interp : Interp := (newInterpreter f.cie f.arch).begin f.startPC

def sealed (s : Interp) : Interp :=
  ({ (s.snapshot f.startPC).sealInitialRules with lastEmittedPC := f.startPC }).begin f.startPC

/-- The machine after the instructions of the CIE, ready for those of the FDE. -/
def machineSealed (is₀ : List Instr) : Option Dwarf :=
  (is₀.foldl (Dwarf.next f.cie f.cieBase) (some f.machine)).map fun r => r.sealed f.startPC.toNat

/-- Both after the instructions of the CIE, ready for those of the FDE. -/
def bothSealed (is₀ : List Instr) : Option (Interp × Dwarf) :=
  (is₀.foldl (both f.cie f.cieBase) (some (f.interp, f.machine))).map fun y =>
    (f.sealed y.1, y.2.sealed f.startPC.toNat)

def meaning (is₀ is : List Instr) : Option (List Segment) :=
  (is.foldl (Dwarf.next f.cie f.fdeBase) (f.machineSealed is₀)).map fun r =>
    (r.advance f.endPC.toNat).table

/-- All offsets fit, and all advances stay inside the range; the CIE has none to advance over. -/
structure Bounded (is₀ is : List Instr) : Prop where
  cie : Along (Dwarf.next f.cie f.cieBase)
    (fun x i => ∀ r ∈ x, InRange f.cie f.cieBase f.startPC r i) (some f.machine) is₀
  fde : Along (Dwarf.next f.cie f.fdeBase)
    (fun x i => ∀ r ∈ x, InRange f.cie f.fdeBase f.endPC r i) (f.machineSealed is₀) is

/-- Every instruction of the two programs is plain where it is carried out. -/
structure Plain (is₀ is : List Instr) : Prop where
  columns : f.arch.fpReg.toUInt64 ≠ f.cie.raColumn
  readsCIE : ReadsAs f.cie.fdePointerEnc f.cie.initialInstructions 0 is₀
  readsFDE : ReadsAs f.cie.fdePointerEnc f.instructions 0 is
  cie : Along (both f.cie f.cieBase)
    (fun x i => ∀ y ∈ x, Unwind.Plain f.arch f.cie f.cieBase y.1 y.2 i) (some (f.interp, f.machine)) is₀
  fde : Along (both f.cie f.fdeBase)
    (fun x i => ∀ y ∈ x, Unwind.Plain f.arch f.cie f.fdeBase y.1 y.2 i) (f.bothSealed is₀) is
  last : ∀ y ∈ is.foldl (both f.cie f.fdeBase) (f.bothSealed is₀), y.1.Gapless f.endPC

end Frame

variable {base : Int → UInt64}

theorem Dwarf.step_loc {c : CIE} {r r' : Dwarf} {i : Instr} (h : r.step c base i = some r') :
    r'.loc = (r.target c base i).getD r.loc := by
  cases i with
  | restoreState =>
    rw [Dwarf.step] at h
    split at h
    · cases h
    · cases h
      rfl
  | _ =>
    cases h
    rfl

theorem Follows.run {arch : ArchInfo} {c : CIE} {start : Nat} {stop : UInt64} (hcol : arch.fpReg.toUInt64 ≠ c.raColumn)
    (hstop : stop.toNat - start < 2 ^ 32) {is : List Instr} {s s' : Interp} {r : Dwarf} (h : Follows arch c start s r)
    (hle : r.loc ≤ stop.toNat)
    (hin : Along (Dwarf.next c base) (fun x i => ∀ r ∈ x, InRange c base stop r i) (some r) is)
    (hplain : Along (both c base) (fun x i => ∀ y ∈ x, Plain arch c base y.1 y.2 i) (some (s, r)) is)
    (hexec : is.foldlM exec s = .ok s') :
    ∃ r', is.foldl (Dwarf.next c base) (some r) = some r' ∧
      is.foldl (both c base) (some (s, r)) = some (s', r') ∧ Follows arch c start s' r' ∧ r'.loc ≤ stop.toNat := by
  induction is generalizing s r with
  | nil =>
    cases hexec
    exact ⟨r, rfl, rfl, h, hle⟩
  | cons i is ih =>
    obtain ⟨s₁, hi, hrest⟩ := bind_eq_ok.mp hexec
    have hini := hin.1 r rfl
    obtain ⟨r₁, hr₁, h₁⟩ := h.step hcol hstop hini (hplain.1 _ rfl) hi
    have hnext : Dwarf.next c base (some r) i = some r₁ := hr₁
    have hboth : both c base (some (s, r)) i = some (s₁, r₁) := by
      show (match exec s i, r.step c base i with
        | .ok s, some r => some (s, r)
        | _, _ => none) = _
      rw [hi, hr₁]
    rw [foldl_cons, foldl_cons, hnext, hboth]
    refine ih h₁ ?_ (hnext ▸ hin.2) (hboth ▸ hplain.2) hrest
    rw [Dwarf.step_loc hr₁]
    cases htarget : r.target c base i with
    | none => exact hle
    | some pc => exact (hini.2 pc htarget).2

namespace Frame

variable {f : Frame}

theorem machine_regs_fp (f : Frame) : f.machine.rules.regs f.arch.fpReg.toUInt64 = .sameValue := if_pos rfl

theorem machine_regs_ra (hcol : f.arch.fpReg.toUInt64 ≠ f.cie.raColumn) :
    f.machine.rules.regs f.cie.raColumn = .undefined := if_neg (Ne.symm hcol)

theorem follows (hcol : f.arch.fpReg.toUInt64 ≠ f.cie.raColumn) :
    Follows f.arch f.cie f.startPC.toNat f.interp f.machine := by
  have hfp : ∀ mark, Kept mark archDefaultFPRule (f.machine.rules.regs f.arch.fpReg.toUInt64) := by
    intro mark
    rw [machine_regs_fp]
    exact .inl rfl
  have hra : ∀ mark, Kept mark archDefaultRARule (f.machine.rules.regs f.cie.raColumn) := by
    intro mark
    rw [machine_regs_ra hcol]
    exact .inl rfl
  have hfits : FitsInt32 0 := by constructor <;> decide
  exact
    { arch_eq := rfl
      cie_eq := rfl
      loc := rfl
      pc := rfl
      start_le := le_refl _
      rules := ⟨rfl, rfl, hfits, hfp _, hra _, fun _ htype => (htype rfl).elim⟩
      initFP := hfp _
      initRA := hra _
      stack := .nil
      table := ⟨nofun, nofun, nofun, nofun⟩ }

theorem follows_sealed {s : Interp} {r : Dwarf} (h : Follows f.arch f.cie f.startPC.toNat s r)
    (hle : r.loc ≤ f.startPC.toNat) :
    Follows f.arch f.cie f.startPC.toNat (f.sealed s) (r.sealed f.startPC.toNat) := by
  have hloc : r.loc = f.startPC.toNat := le_antisymm hle h.start_le
  have hlast : s.lastEmittedPC = f.startPC := UInt64.toNat_inj.mp (h.loc.trans hloc)
  have hsnap : s.snapshot f.startPC = s := if_pos (show f.startPC.toNat ≤ _ from hlast ▸ le_refl _)
  unfold Frame.sealed
  rw [hsnap]
  exact
    { arch_eq := h.arch_eq
      cie_eq := h.cie_eq
      loc := rfl
      pc := rfl
      start_le := le_refl _
      rules := h.rules
      initFP := h.rules.fp.marked
      initRA := h.rules.ra.marked
      stack := h.stack
      table :=
        { rows := fun e he => hlast ▸ h.table.rows e he
          sound := by
            intro e he pc hpc
            have hrow := h.table.rows e he
            rw [hlast] at hrow
            exact absurd (lt_of_lt_of_le hpc.2 (le_trans hrow.2 hrow.1)) (Nat.not_lt.mpr hpc.1)
          complete := nofun
          last := h.table.last } }

end Frame

theorem run_eq_ok {s s' : Interp} {fuel : Nat} {startPC endPC : UInt64} {program : Slice UInt8}
    (h : s.run fuel startPC endPC program = .ok s') :
    ∃ s₁, loop program fuel 0 (s.begin startPC) = .ok s₁ ∧ s' = s₁.snapshot endPC := by
  obtain ⟨s₁, hloop, heq⟩ := bind_eq_ok.mp h
  cases heq
  exact ⟨s₁, hloop, rfl⟩

/-- Where every instruction is plain, a row that covers an address says what the rules there
are, and an address whose rules can all be said is covered, unless some register has been
given an inexpressible rule before. -/
theorem rows_mean_dwarf (f : Frame) {fuel : Nat} {s : Interp} {is₀ is : List Instr}
    (hrun : interpret fuel f.cie f.arch f.startPC f.endPC f.instructions = .ok s)
    (hbounded : f.Bounded is₀ is) (hplain : f.Plain is₀ is) :
    ∃ table, f.meaning is₀ is = some table ∧ ∀ pc, (∀ e ∈ s.entries, e.Covers pc →
        ∃ g, segmentAt table pc = some g ∧ e.Describes f.arch f.cie g.rules) ∧
      (∀ g, segmentAt table pc = some g → g.rules.Expressible f.arch f.cie → g.tainted = false →
        ∃ e ∈ s.entries, e.Covers pc) := by
  obtain ⟨s₁, hcie, hfde⟩ := bind_eq_ok.mp hrun
  obtain ⟨s₂, hloop₀, rfl⟩ := run_eq_ok (mapError_eq_ok.mp hcie)
  obtain ⟨s₃, hloop, rfl⟩ := run_eq_ok (mapError_eq_ok.mp hfde)
  have hexec₀ : is₀.foldlM exec f.interp = .ok s₂ :=
    hplain.readsCIE.loop_eq_ok (le_refl _) rfl hloop₀
  obtain ⟨r₂, hr₂, hb₂, h₂, hle₂⟩ := Follows.run hplain.columns (by simp) (Frame.follows hplain.columns)
    (le_refl _) hbounded.cie hplain.cie hexec₀
  have hsealed := Frame.follows_sealed h₂ hle₂
  have hexec : is.foldlM exec (f.sealed s₂) = .ok s₃ :=
    hplain.readsFDE.loop_eq_ok (le_refl _) (congrArg CIE.fdePointerEnc hsealed.cie_eq) hloop
  have hm : f.machineSealed is₀ = some (r₂.sealed f.startPC.toNat) := by
    rw [Frame.machineSealed, hr₂]
    rfl
  have hb : f.bothSealed is₀ = some (f.sealed s₂, r₂.sealed f.startPC.toNat) := by
    rw [Frame.bothSealed, hb₂]
    rfl
  obtain ⟨r₃, hr₃, hb₃, h₃, hle₃⟩ := Follows.run hplain.columns f.range_lt hsealed f.start_le
    (hm ▸ hbounded.fde) (hb ▸ hplain.fde) hexec
  have hgap : s₃.Gapless f.endPC := hplain.last (s₃, r₃) (by rw [hb, hb₃]; rfl)
  have hend := (h₃.advance hgap hle₃ f.range_lt).table
  refine ⟨(r₃.advance f.endPC.toNat).table, ?_, ?_⟩
  · rw [Frame.meaning, hm, hr₃]
    rfl
  · intro pc
    constructor
    · intro e he hcov
      exact hend.sound e (mem_reverse.mp he) pc hcov
    · intro g hg hexp ht
      obtain ⟨e, he, hcov⟩ := hend.complete pc g hg hexp ht
      exact ⟨e, mem_reverse.mpr he, hcov⟩

/-- The CIE of an ordinary x86-64 program: the CFA is `%rsp + 8`, the return address just below. -/
def ordinaryCIE : CIE where
  version := 1
  augmentation := [122, 82]
  codeAlign := 1
  dataAlign := -8
  raColumn := 16
  fdePointerEnc := 0x1b
  initialInstructions := .ofList [0x0c, 0x07, 0x08, 0x90, 0x01] (by decide)

def frameOf (instructions : Slice UInt8) : Frame where
  cie := ordinaryCIE
  arch := archX86_64
  startPC := 0x1000
  endPC := 0x1010
  instructions := instructions
  cieBase := fun _ => 0
  fdeBase := fun _ => 0
  start_le := by decide
  range_lt := by decide

/-- `push %rbp; mov %rsp, %rbp`. -/
def prologue : Frame :=
  frameOf (.ofList [0x41, 0x0e, 0x10, 0x86, 0x02, 0x43, 0x0d, 0x06, 0x4c] (by decide))

theorem rows_mean_dwarf_prologue : ∃ s table, interpret 16 prologue.cie prologue.arch prologue.startPC prologue.endPC
        prologue.instructions = .ok s ∧ s.entries.length = 3 ∧
      prologue.meaning [.defCFA 7 8, .offset 16 1]
        [.advanceLoc 1, .defCFAOffset 16, .offset 6 2, .advanceLoc 3, .defCFARegister 6, .advanceLoc 12] = some table ∧
      ∀ e ∈ s.entries, e.Covers 0x1008 →
        ∃ g, segmentAt table 0x1008 = some g ∧ e.Describes prologue.arch prologue.cie g.rules := by
  obtain ⟨s, hrun, hlen⟩ : ∃ s, interpret 16 prologue.cie prologue.arch prologue.startPC prologue.endPC
      prologue.instructions = .ok s ∧ decide (s.entries.length = 3) = true :=
    exists_of_any (by decide +kernel)
  have hbounded : prologue.Bounded [.defCFA 7 8, .offset 16 1]
      [.advanceLoc 1, .defCFAOffset 16, .offset 6 2, .advanceLoc 3, .defCFARegister 6, .advanceLoc 12] :=
    ⟨by decide +kernel, by decide +kernel⟩
  have hcie : instructionsFrom prologue.cie.fdePointerEnc prologue.cie.initialInstructions 5 0 =
      some [.defCFA 7 8, .offset 16 1] := by decide +kernel
  have hfde : instructionsFrom prologue.cie.fdePointerEnc prologue.instructions 9 0 = some
      [.advanceLoc 1, .defCFAOffset 16, .offset 6 2, .advanceLoc 3, .defCFARegister 6, .advanceLoc 12] := by
    decide +kernel
  obtain ⟨table, htable, hmean⟩ := rows_mean_dwarf prologue hrun hbounded
    { columns := by decide
      readsCIE := readsAs_of_instructionsFrom hcie
      readsFDE := readsAs_of_instructionsFrom hfde
      cie := by decide +kernel
      fde := by decide +kernel
      last := by decide +kernel }
  exact ⟨s, table, hrun, of_decide_eq_true hlen, htable, (hmean _).1⟩

/-- The value of `%rbp` is given by an expression, and then the CFA offset changes. -/
def expressionThenOffset : Frame :=
  frameOf (.ofList [0x41, 0x10, 0x06, 0x01, 0x96, 0x0e, 0x10, 0x4f] (by decide))

/-- The change of the CFA offset clears the mark that stood for the expression, and the row that
follows says that `%rbp` still holds the caller's value. -/
theorem expression_forgotten : ∃ s table, ReadsAs expressionThenOffset.cie.fdePointerEnc
        expressionThenOffset.cie.initialInstructions 0 [.defCFA 7 8, .offset 16 1] ∧
      ReadsAs expressionThenOffset.cie.fdePointerEnc expressionThenOffset.instructions 0
        [.advanceLoc 1, .expression 6 1, .defCFAOffset 16, .advanceLoc 15] ∧
      expressionThenOffset.Bounded [.defCFA 7 8, .offset 16 1]
        [.advanceLoc 1, .expression 6 1, .defCFAOffset 16, .advanceLoc 15] ∧
      interpret 16 expressionThenOffset.cie expressionThenOffset.arch expressionThenOffset.startPC
        expressionThenOffset.endPC expressionThenOffset.instructions = .ok s ∧
      expressionThenOffset.meaning [.defCFA 7 8, .offset 16 1]
        [.advanceLoc 1, .expression 6 1, .defCFAOffset 16, .advanceLoc 15] = some table ∧
      ∃ e ∈ s.entries, e.Covers 0x1001 ∧ e.fpType = .sameValue ∧ ∃ g, segmentAt table 0x1001 = some g ∧
          g.rules.regs expressionThenOffset.arch.fpReg.toUInt64 = .inexpressible ∧
          ¬e.Describes expressionThenOffset.arch expressionThenOffset.cie g.rules := by
  have hcie : instructionsFrom expressionThenOffset.cie.fdePointerEnc
      expressionThenOffset.cie.initialInstructions 5 0 = some [.defCFA 7 8, .offset 16 1] := by
    decide +kernel
  have hfde : instructionsFrom expressionThenOffset.cie.fdePointerEnc expressionThenOffset.instructions 8 0 =
      some [.advanceLoc 1, .expression 6 1, .defCFAOffset 16, .advanceLoc 15] := by
    decide +kernel
  obtain ⟨s, hrun, hs⟩ : ∃ s, interpret 16 expressionThenOffset.cie expressionThenOffset.arch
      expressionThenOffset.startPC expressionThenOffset.endPC expressionThenOffset.instructions = .ok s ∧
      decide (∃ e ∈ s.entries, e.Covers 0x1001 ∧ e.fpType = .sameValue) = true :=
    exists_of_any (by decide +kernel)
  obtain ⟨table, htable, ht⟩ : ∃ table, expressionThenOffset.meaning [.defCFA 7 8, .offset 16 1]
      [.advanceLoc 1, .expression 6 1, .defCFAOffset 16, .advanceLoc 15] = some table ∧
      (segmentAt table 0x1001).any (fun g =>
        decide (g.rules.regs expressionThenOffset.arch.fpReg.toUInt64 = .inexpressible)) = true :=
    (Option.any_eq_true _ _).mp (by decide +kernel)
  obtain ⟨e, he, hcov, htype⟩ := of_decide_eq_true hs
  obtain ⟨g, hg, hinexp⟩ := (Option.any_eq_true _ _).mp ht
  refine ⟨s, table, readsAs_of_instructionsFrom hcie, readsAs_of_instructionsFrom hfde,
    ⟨by decide +kernel, by decide +kernel⟩, hrun, htable, e, he, hcov, htype, g, hg,
    of_decide_eq_true hinexp, ?_⟩
  intro hdesc
  exact hdesc.expressible.fp (of_decide_eq_true hinexp)

end PerfAgent.Unwind
