import PerfAgent.Unwind.Narrowing

/-!
# The rows of a section, next to its numbers

What one instruction and one end do to the two machines that run side by side, and from it what a
run and a whole section do: the rows are what the program says exactly if every number that it
emits a row with fits.
-/

namespace PerfAgent.Unwind

open List

variable {reg : Nat}

/-! ## Registers -/

section Registers

variable {arch : ArchInfo} {n : CIENumbers}

theorem toUInt8_of_mod {reg : UInt64} {k : Nat} (h : reg.toNat = k % 2 ^ 64) : reg.toUInt8 = UInt8.ofNat k := by
  rw [← UInt8.toNat_inj, UInt64.toNat_toUInt8, h, UInt8.toNat_ofNat']
  omega

theorem takenForFP_iff : UInt8.ofNat reg = arch.fpReg ↔ TakenForFP arch reg := by
  rw [← UInt8.toNat_inj, UInt8.toNat_ofNat']
  rfl

theorem ofNat_eq_raColumn {c : CIE} (hc : c.Reads n) :
    (UInt8.ofNat reg).toUInt64 = c.raColumn ↔ reg % 2 ^ 8 = n.raColumn % 2 ^ 64 := by
  rw [← UInt64.toNat_inj, UInt8.toNat_toUInt64, UInt8.toNat_ofNat', hc.raColumn]

/-- The interpreter gives the return address a rule only if that is what the program speaks of. -/
theorem aboutRA_of_taken {c : CIE} (hc : c.Reads n) (hfp : UInt8.ofNat reg ≠ arch.fpReg)
    (hra : (UInt8.ofNat reg).toUInt64 = c.raColumn) : AboutRA arch n reg :=
  .inr ⟨fun h => hfp (takenForFP_iff.mpr h), (ofNat_eq_raColumn hc).mp hra⟩

theorem taken_of_aboutRA {c : CIE} (hc : c.Reads n) (h : AboutRA arch n reg) (hreg : reg < 2 ^ 8)
    (hcol : n.raColumn < 2 ^ 8) :
    reg = n.raColumn ∧ UInt8.ofNat reg ≠ arch.fpReg ∧ (UInt8.ofNat reg).toUInt64 = c.raColumn := by
  have hmod : reg % 2 ^ 8 = reg := Nat.mod_eq_of_lt hreg
  have hmod' : n.raColumn % 2 ^ 64 = n.raColumn := Nat.mod_eq_of_lt (by omega)
  rw [Ne, takenForFP_iff, ofNat_eq_raColumn hc, TakenForFP, hmod, hmod']
  rcases h with ⟨heq, hne⟩ | ⟨hne, heq⟩
  · exact ⟨heq, hne, heq⟩
  · rw [hmod] at hne heq
    rw [hmod'] at heq
    exact ⟨heq, hne, heq⟩

/-- What the interpreter does with a rule for a register, for the frame pointer and for the return
address. -/
def SavedState.write (arch : ArchInfo) (c : CIE) (a : SavedState) (reg : UInt8) (fp ra : RegRule) : SavedState :=
  if reg = arch.fpReg then { a with fpRule := fp }
  else if reg.toUInt64 = c.raColumn then { a with raRule := ra }
  else a

theorem setRegRule_eq (s : Interp) (reg : UInt8) (r : RegRule) :
    s.setRegRule reg r = { s with rules := s.rules.write s.arch s.cie reg r r } := by
  unfold Interp.setRegRule SavedState.write
  split
  · rfl
  · split
    · rfl
    · rfl

theorem restoreRegInitial_eq (s : Interp) (reg : UInt8) :
    s.restoreRegInitial reg = { s with rules := s.rules.write s.arch s.cie reg s.initFPRule s.initRARule } := by
  unfold Interp.restoreRegInitial SavedState.write
  split
  · rfl
  · split
    · rfl
    · rfl

theorem SavedState.Narrows.write {a : SavedState} {x : Exact} (h : a.Narrows arch n x.rules) {c : CIE}
    (hc : c.Reads n) {reg : Nat} {fp ra : RegRule} {fp' ra' : ExactRule} (hfp : NarrowsFP arch fp fp')
    (hra : NarrowsRA n ra ra') :
    (a.write arch c (UInt8.ofNat reg) fp ra).Narrows arch n (x.write arch n reg fp' ra').rules := by
  have hwritten : ∀ {b : RegRule}, (UInt8.ofNat reg ≠ arch.fpReg ∧ (UInt8.ofNat reg).toUInt64 = c.raColumn → b = ra) →
      AboutRA arch n reg → NarrowsRA n b { ra' with named := reg :: n.raColumn :: ra'.named } := by
    intro b hb habout hnamed
    obtain ⟨hreg, hnamed⟩ := forall_mem_cons.mp hnamed
    obtain ⟨hcol, hnamed⟩ := forall_mem_cons.mp hnamed
    obtain ⟨heq, htaken⟩ := taken_of_aboutRA hc habout hreg hcol
    obtain ⟨hrule, hall⟩ := hra hnamed
    rw [hb htaken]
    exact ⟨hrule, forall_mem_cons.mpr ⟨heq, forall_mem_cons.mpr ⟨rfl, hall⟩⟩⟩
  unfold SavedState.write Exact.write
  dsimp only
  split
  · next hreg =>
    rw [if_pos (takenForFP_iff.mp hreg)]
    refine ⟨h.cfaType, h.cfaOffset, ⟨hfp.1, forall_mem_cons.mpr ⟨takenForFP_iff.mp hreg, hfp.2⟩⟩, ?_⟩
    split
    · next habout => exact hwritten (fun htaken => absurd hreg htaken.1) habout
    · exact h.ra
  · next hreg =>
    rw [if_neg fun htaken => hreg (takenForFP_iff.mpr htaken)]
    split
    · next hcol =>
      rw [if_pos (aboutRA_of_taken hc hreg hcol)]
      exact ⟨h.cfaType, h.cfaOffset, h.fp, hwritten (fun _ => rfl) (aboutRA_of_taken hc hreg hcol)⟩
    · next hcol =>
      refine ⟨h.cfaType, h.cfaOffset, h.fp, ?_⟩
      split
      · next habout => exact hwritten (fun htaken => absurd htaken.2 hcol) habout
      · exact h.ra

theorem SavedState.Narrows.setCFA {a : SavedState} {r : ExactRules} (h : a.Narrows arch n r) {type : CFAType}
    {offset : Int64} {mark : RuleKind} {off : Int}
    (htype : type ≠ .undefined → type = arch.cfaTypeFor (UInt8.ofNat reg)) (hoffset : offset.toInt = off.bmod (2 ^ 64))
    :
    SavedState.Narrows arch n { a with cfaType := type, cfaOffset := offset, cfaRule := mark }
      { r with cfaReg := reg, cfaOffset := off } :=
  ⟨htype, hoffset, h.fp, h.ra⟩

end Registers

variable {x : Int64}

/-! ## Offsets -/

section Offsets

variable {c : CIE} {n : CIENumbers} {k : Int}

theorem toInt_offset {x : UInt64} (hx : (x.toNat : Int) = k % 2 ^ 64) : x.toInt64.toInt = k.bmod (2 ^ 64) := by
  rw [toInt_toInt64, hx]
  exact Int.emod_bmod _ _

theorem toInt_product (hc : c.Reads n) (hx : x.toInt = k.bmod (2 ^ 64)) :
    (x * c.dataAlign).toInt = (k * n.dataAlign).bmod (2 ^ 64) := by
  rw [Int64.toInt_mul, hx, hc.dataAlign, Int.bmod_mul_bmod, Int.mul_bmod_bmod]

end Offsets

/-! ## One instruction -/

theorem narrowsFP_offset {arch : ArchInfo} {k : Int} (h : x.toInt = k.bmod (2 ^ 64)) :
    NarrowsFP arch { kind := .offset, offset := x } { kind := .offset, offset := k } :=
  ⟨⟨rfl, h⟩, fun _ h => by cases h⟩

theorem narrowsRA_offset {n : CIENumbers} {k : Int} (h : x.toInt = k.bmod (2 ^ 64)) :
    NarrowsRA n { kind := .offset, offset := x } { kind := .offset, offset := k } :=
  fun _ => ⟨⟨rfl, h⟩, fun _ h => by cases h⟩

theorem narrowsFP_kind (arch : ArchInfo) (kind : RuleKind) (register : UInt8) :
    NarrowsFP arch { kind := kind, register := register } { kind := kind } :=
  ⟨⟨rfl, rfl⟩, fun _ h => by cases h⟩

theorem narrowsRA_kind (n : CIENumbers) (kind : RuleKind) (register : UInt8) :
    NarrowsRA n { kind := kind, register := register } { kind := kind } :=
  fun _ => ⟨⟨rfl, rfl⟩, fun _ h => by cases h⟩

namespace Lockstep

section Instruction

variable {f : FDE} {arch : ArchInfo} {n : CIENumbers} {y : Lockstep}

theorem Ok.withRules (h : y.Ok f arch n) {a : SavedState} {stack : List SavedState} {r : ExactRules}
    {saved : List ExactRules} (hrules : a.Narrows arch n r)
    (hstack : List.Forall₂ (SavedState.Narrows arch n) stack saved) :
    Ok f arch n
      { interp := { y.interp with rules := a, stack := stack }
        free := { y.free with rules := r, stack := saved } } :=
  { h with
    rules := hrules
    stack := hstack }

theorem Ok.write (h : y.Ok f arch n) (hc : f.cie.Reads n) {reg : UInt64} {k : Nat} (hreg : reg.toNat = k % 2 ^ 64)
    {fp ra : RegRule} {fp' ra' : ExactRule} (hfp : NarrowsFP arch fp fp') (hra : NarrowsRA n ra ra') :
    Ok f arch n
      { interp :=
          { y.interp with rules := y.interp.rules.write y.interp.arch y.interp.cie reg.toUInt8 fp ra }
        free := y.free.write arch n k fp' ra' } := by
  rw [h.arch_eq, h.cie_eq, toUInt8_of_mod hreg]
  exact h.withRules (h.rules.write hc hfp hra) h.stack

theorem Ok.set (h : y.Ok f arch n) (hc : f.cie.Reads n) {reg : UInt64} {k : Nat} (hreg : reg.toNat = k % 2 ^ 64)
    {r : RegRule} {r' : ExactRule} (hfp : NarrowsFP arch r r') (hra : NarrowsRA n r r') :
    Ok f arch n { interp := y.interp.setRegRule reg.toUInt8 r, free := y.free.set arch n k r' } := by
  rw [setRegRule_eq]
  exact h.write hc hreg hfp hra

theorem Ok.setCFA (h : y.Ok f arch n) {reg : UInt64} {k : Nat} (hreg : reg.toNat = k % 2 ^ 64) {offset : Int64}
    {off : Int} (hoffset : offset.toInt = off.bmod (2 ^ 64)) :
    Ok f arch n { interp := y.interp.setCFA reg.toUInt8 offset, free := y.free.setCFA k off } := by
  refine h.withRules (h.rules.setCFA (fun _ => ?_) hoffset) h.stack
  show y.interp.arch.cfaTypeFor reg.toUInt8 = _
  rw [h.arch_eq, toUInt8_of_mod hreg]

theorem Ok.setCFAOffset (h : y.Ok f arch n) {offset : Int64} {off : Int} (hoffset : offset.toInt = off.bmod (2 ^ 64)) :
    Ok f arch n { interp := y.interp.setCFAOffset offset, free := y.free.setCFA y.free.rules.cfaReg off } :=
  h.withRules (h.rules.setCFA h.rules.cfaType hoffset) h.stack

theorem Ok.rule (h : y.Ok f arch n) (hc : f.cie.Reads n) {m : Numbers} {i : Instr} (hi : i.Reads m) {s' : Interp}
    (hstay : i.target y.interp = none) (hexec : exec y.interp i = .ok s') :
    Ok f arch n { interp := s', free := y.free.rule arch n m i } := by
  cases i with
  | nop =>
    cases hexec
    exact h
  | advanceLoc factor => cases hstay
  | setLoc newPC operand => cases hstay
  | offset reg factor =>
    cases hexec
    obtain ⟨hreg, hfactor⟩ := hi
    have hproduct := toInt_product hc (toInt_offset hfactor)
    rw [← h.cie_eq] at hproduct
    exact h.set hc hreg (narrowsFP_offset hproduct) (narrowsRA_offset hproduct)
  | offsetExtendedSF reg factor =>
    cases hexec
    obtain ⟨hreg, hfactor⟩ := hi
    have hproduct := toInt_product hc hfactor
    rw [← h.cie_eq] at hproduct
    exact h.set hc hreg (narrowsFP_offset hproduct) (narrowsRA_offset hproduct)
  | restore reg =>
    cases hexec
    rw [restoreRegInitial_eq]
    exact h.write hc hi h.initFP h.initRA
  | undefined reg =>
    cases hexec
    exact h.set hc hi (narrowsFP_kind _ _ _) (narrowsRA_kind _ _ _)
  | sameValue reg =>
    cases hexec
    exact h.set hc hi (narrowsFP_kind _ _ _) (narrowsRA_kind _ _ _)
  | register reg other =>
    cases hexec
    exact h.set hc hi (narrowsFP_kind _ _ _) (narrowsRA_kind _ _ _)
  | rememberState =>
    rw [exec] at hexec
    split at hexec
    · cases hexec
    · cases hexec
      exact h.withRules h.rules (.cons h.rules h.stack)
  | restoreState =>
    have hstack := h.stack
    rw [exec] at hexec
    split at hexec
    · cases hexec
    · next saved stack heq =>
      cases hexec
      rw [heq] at hstack
      obtain ⟨r, rest, hrules, hrest, hsaved⟩ := forall₂_cons_left_iff.mp hstack
      have hhead : y.free.stack.head?.getD y.free.rules = r := by
        rw [hsaved]
        rfl
      have htail : y.free.stack.tail = rest := by
        rw [hsaved]
        rfl
      dsimp only [Exact.rule]
      rw [hhead, htail]
      exact h.withRules hrules hrest
  | defCFA reg off =>
    cases hexec
    exact h.setCFA hi.1 (toInt_offset hi.2)
  | defCFASF reg off =>
    cases hexec
    have hproduct := toInt_product hc hi.2
    rw [← h.cie_eq] at hproduct
    exact h.setCFA hi.1 hproduct
  | defCFARegister reg =>
    cases hexec
    exact h.setCFA hi h.rules.cfaOffset
  | defCFAOffset off =>
    cases hexec
    exact h.setCFAOffset (toInt_offset hi)
  | defCFAOffsetSF off =>
    cases hexec
    have hproduct := toInt_product hc hi
    rw [← h.cie_eq] at hproduct
    exact h.setCFAOffset hproduct
  | defCFAExpression length =>
    cases hexec
    exact h.withRules ⟨fun hdef => absurd rfl hdef, h.rules.cfaOffset, h.rules.fp, h.rules.ra⟩ h.stack
  | expression reg length =>
    cases hexec
    exact h.withRules ⟨h.rules.cfaType, h.rules.cfaOffset, h.rules.fp, h.rules.ra⟩ h.stack
  | valOffset reg =>
    cases hexec
    exact h.withRules ⟨h.rules.cfaType, h.rules.cfaOffset, h.rules.fp, h.rules.ra⟩ h.stack

theorem log_rule (x : Exact) (m : Numbers) (i : Instr) : (x.rule arch n m i).log = x.log := by
  cases i <;> rfl

theorem rows_rule {m : Numbers} {i : Instr} {s' : Interp} (hstay : i.target y.interp = none)
    (hexec : exec y.interp i = .ok s') :
    Rows arch n { interp := s', free := y.free.rule arch n m i } ↔ y.Rows arch n := by
  obtain ⟨pc, rules, stack, rfl⟩ := exec_frame hexec
  rw [hstay]
  unfold Rows
  rw [log_rule]
  rfl

theorem Ok.target (h : y.Ok f arch n) (hc : f.cie.Reads n) {pos : Int} {i : Instr} {s' : Interp} {newPC : UInt64}
    {dest : Nat} (htarget : y.target f n (.carryOut pos i) = some (newPC, dest)) (hexec : exec y.interp i = .ok s') :
    s' = { y.interp.snapshot newPC with pc := newPC } ∧ newPC.toNat = dest % 2 ^ 64 := by
  cases i with
  | advanceLoc factor =>
    cases htarget
    cases hexec
    refine ⟨snapshotAndAdvance_eq _ _, ?_⟩
    rw [UInt64.toNat_add, UInt64.toNat_mul, h.pc, h.cie_eq, hc.codeAlign, Nat.mul_mod_mod, ← Nat.add_mod]
  | setLoc newPC operand =>
    cases htarget
    rw [exec] at hexec
    split at hexec
    · cases hexec
    · cases hexec
      have hpc : y.interp.pc + (newPC - y.interp.pc) = newPC := add_sub_cancel y.interp.pc newPC
      refine ⟨?_, (Nat.mod_eq_of_lt newPC.toNat_lt).symm⟩
      rw [snapshotAndAdvance_eq, hpc]
  | _ => cases htarget

theorem target_eq_none {pos : Int} {i : Instr} (h : y.target f n (.carryOut pos i) = none) :
    i.target y.interp = none := by
  cases i with
  | advanceLoc factor => cases h
  | setLoc newPC operand => cases h
  | _ => rfl

theorem Ok.next (h : y.Ok f arch n) (hc : f.cie.Reads n) {q : FDE.Action × Numbers} (hq : q.1.Reads q.2)
    {y' : Lockstep} (hnext : y.next f arch n q = some y') :
    y'.Ok f arch n ∧ (y'.Rows arch n ↔ y.Rows arch n ∧ y.Fits f n q) := by
  obtain ⟨a, m⟩ := q
  obtain ⟨s', hs', rfl⟩ := Option.map_eq_some_iff.mp hnext
  unfold Fits
  cases a with
  | carryOut pos i =>
    have hexec := Outcome.toOption_eq_some.mp hs'
    dsimp only [follow]
    cases htarget : y.target f n (.carryOut pos i) with
    | none =>
      have hstay := target_eq_none htarget
      refine ⟨h.rule hc hq hstay hexec, ?_⟩
      rw [rows_rule hstay hexec]
      exact ⟨fun hrows => ⟨hrows, fun _ ht => by cases ht⟩, fun hrows => hrows.1⟩
    | some t =>
      obtain ⟨newPC, dest⟩ := t
      obtain ⟨rfl, hdest⟩ := h.target hc htarget hexec
      refine ⟨h.move hdest, (h.rows_move hdest).trans (and_congr_right fun _ => ?_)⟩
      exact ⟨fun hfits t ht => by cases ht; exact hfits, fun hfits => hfits _ rfl⟩
  | endCIE =>
    cases hs'
    have hdest : f.initialLocation.toNat = f.initialLocation.toNat % 2 ^ 64 :=
      (Nat.mod_eq_of_lt f.initialLocation.toNat_lt).symm
    have hmove := h.move hdest
    refine ⟨{ hmove with initFP := hmove.rules.fp, initRA := hmove.rules.ra, mark := hdest }, ?_⟩
    refine (h.rows_move hdest).trans (and_congr_right fun _ => ?_)
    exact ⟨fun hfits t ht => by cases ht; exact hfits, fun hfits => hfits _ rfl⟩
  | endFDE =>
    cases hs'
    have hdest : f.endPC.toNat = (f.initialLocation.toNat + f.addressRange.toNat) % 2 ^ 64 := UInt64.toNat_add _ _
    have hmove := h.move hdest
    have hpc : (y.interp.snapshot f.endPC).pc = y.interp.pc := by
      rw [snapshot_frame]
    refine ⟨{ hmove with pc := hpc ▸ h.pc }, ?_⟩
    refine (h.rows_move hdest).trans (and_congr_right fun _ => ?_)
    exact ⟨fun hfits t ht => by cases ht; exact hfits, fun hfits => hfits _ rfl⟩

theorem ok_opening (f : FDE) (arch : ArchInfo) (n : CIENumbers) : (opening f arch).Ok f arch n := by
  have hfp := narrowsFP_kind arch .sameValue 0
  have hra := narrowsRA_kind n .undefined 0
  have hloc := (Nat.mod_eq_of_lt f.initialLocation.toNat_lt).symm
  refine ⟨rfl, rfl, ⟨fun hdef => absurd rfl hdef, rfl, hfp, hra⟩, hfp, hra, .nil, hloc, hloc, rfl, ?_, ?_⟩
  · exact fun _ h => by cases h
  · exact fun _ h => by cases h

theorem rows_opening (f : FDE) (arch : ArchInfo) (n : CIENumbers) : (opening f arch).Rows arch n := .nil

end Instruction

end Lockstep

/-! ## One FDE -/

section Run

variable {f : FDE} {arch : ArchInfo} {n : CIENumbers}

theorem Lockstep.foldlM_interp (qs : List (FDE.Action × Numbers)) (y : Lockstep) :
    (qs.foldlM (Lockstep.next f arch n) y).map Lockstep.interp = (qs.map Prod.fst).foldlM f.next y.interp := by
  induction qs generalizing y with
  | nil => rfl
  | cons q qs ih =>
    rw [foldlM_cons, map_cons, foldlM_cons]
    cases hs : f.next y.interp q.1 with
    | none =>
      have hnext : y.next f arch n q = none := by
        rw [Lockstep.next, hs]
        rfl
      rw [hnext]
      rfl
    | some s =>
      have hnext : y.next f arch n q = some { interp := s, free := y.follow f arch n q } := by
        rw [Lockstep.next, hs]
        rfl
      rw [hnext]
      exact ih _

def FDE.Beside (fuel : Nat) (arch : ArchInfo) (n : CIENumbers) (f : FDE) (y : Lockstep) : Prop :=
  Run (fun y q y' => y.next f arch n q = some y') (.opening f arch) (f.numberedActions fuel arch) y

theorem FDE.exists_beside {fuel : Nat} {rows : List CFIEntry} (n : CIENumbers)
    (h : compileFDE fuel arch f = .ok rows) : ∃ y, f.Beside fuel arch n y ∧ y.interp.entries = rows := by
  obtain ⟨s, hs, rfl⟩ := f.rows_of_run h
  have hfold := @Lockstep.foldlM_interp f arch n (f.numberedActions fuel arch) (.opening f arch)
  rw [FDE.numberedActions, map_fst_withNumbers] at hfold
  have hinterp : (Lockstep.opening f arch).interp = f.opening arch := rfl
  rw [hinterp, run_iff_foldlM.mp hs] at hfold
  obtain ⟨y, hy, rfl⟩ := Option.map_eq_some_iff.mp hfold
  exact ⟨y, run_iff_foldlM.mpr hy, rfl⟩

end Run

section Section

variable (fuel : Nat) (data : Slice UInt8) (arch : ArchInfo)

/-- The rows of an FDE are what its ranges are, and say what its programs say over them. -/
def Compiled.Exact (p : Compiled) : Prop :=
  ∃ y, p.fde.Beside fuel arch (p.cieNumbers data) y ∧
    List.Forall₂ (RowExact arch (p.cieNumbers data)) p.rows y.free.log.reverse

def Compiled.Fits (p : Compiled) : Prop :=
  ∃ y, Run (fun y q y' => Lockstep.Fits p.fde (p.cieNumbers data) y q ∧ y.next p.fde arch (p.cieNumbers data) q = some y')
    (.opening p.fde arch) (p.fde.numberedActions fuel arch) y

instance (p : Compiled) : Decidable (p.Fits fuel data arch) :=
  decidable_of_iff (((p.fde.numberedActions fuel arch).foldlM
      (fun y q => if Lockstep.Fits p.fde (p.cieNumbers data) y q then y.next p.fde arch (p.cieNumbers data) q else none)
        (.opening p.fde arch)).isSome) <| by
      rw [Option.isSome_iff_exists]
      exact exists_congr fun y => (guarded_run_iff_foldlM _ _).symm

/-- The rows of a section are those of its FDEs, and say what their programs say. -/
def SectionExact (sectionPos : UInt64) (allEntries : List CFIEntry) : Prop :=
  allEntries = (compiledSection fuel data sectionPos arch).flatMap Compiled.rows ∧
    ∀ p ∈ compiledSection fuel data sectionPos arch, p.Exact fuel data arch

variable {fuel data arch}

section Iff

variable {p : Compiled} {y : Lockstep}

theorem exact_iff_rows (hcompiled : compileFDE fuel arch p.fde = .ok p.rows)
    (hy : p.fde.Beside fuel arch (p.cieNumbers data) y) :
    p.Exact fuel data arch ↔ y.Rows arch (p.cieNumbers data) := by
  obtain ⟨y', hy', hrows⟩ := FDE.exists_beside (p.cieNumbers data) hcompiled
  obtain rfl : y' = y := hy'.unique hy
  have hreverse : List.Forall₂ (RowExact arch (p.cieNumbers data)) p.rows y'.free.log.reverse ↔
      y'.Rows arch (p.cieNumbers data) := by
    rw [← hrows]
    exact forall₂_reverse_iff
  constructor
  · rintro ⟨z, hz, hexact⟩
    obtain rfl : z = y' := hz.unique hy
    exact hreverse.mp hexact
  · intro h
    exact ⟨y', hy, hreverse.mpr h⟩

/-- The rows of an FDE are exact exactly if whatever it emits fits. -/
theorem Compiled.exact_iff {sectionPos : UInt64} (hp : p ∈ compiledSection fuel data sectionPos arch) :
    p.Exact fuel data arch ↔ p.Fits fuel data arch := by
  have hc := cie_reads_of_mem hp
  have hcompiled := compileFDE_of_mem hp
  have hreads := p.fde.numberedActions_reads fuel arch
  obtain ⟨y, hy, -⟩ := FDE.exists_beside (p.cieNumbers data) hcompiled
  have hiff := (hy.labelled hreads).iff_guarded (I := fun y => y.Ok p.fde arch (p.cieNumbers data))
    (G := Lockstep.Rows arch (p.cieNumbers data)) (P := Lockstep.Fits p.fde (p.cieNumbers data))
    (Lockstep.ok_opening _ _ _) (Lockstep.rows_opening _ _ _) fun y q y' hok hnext => hok.next hc hnext.1 hnext.2
  rw [exact_iff_rows hcompiled hy, hiff]
  constructor
  · intro hrun
    exact ⟨y, hrun.mono fun _ _ _ h => ⟨h.1, h.2.2⟩⟩
  · rintro ⟨z, hz⟩
    obtain rfl : z = y := Run.unique (hz.mono fun _ _ _ h => h.2) hy
    exact (hz.labelled hreads).mono fun _ _ _ h => ⟨h.2.1, h.1, h.2.2⟩

end Iff

/-- The rows of a section are exact exactly if whatever its FDEs emit fits. -/
theorem exact_iff_fits {sectionPos : UInt64} {allEntries : List CFIEntry}
    (h : compileSection fuel data sectionPos arch = .ok allEntries) :
    SectionExact fuel data arch sectionPos allEntries ↔
      ∀ p ∈ compiledSection fuel data sectionPos arch, p.Fits fuel data arch := by
  constructor
  · rintro ⟨-, hexact⟩ p hp
    exact (Compiled.exact_iff hp).mp (hexact p hp)
  · intro hfits
    exact ⟨compileSection_eq h, fun p hp => (Compiled.exact_iff hp).mpr (hfits p hp)⟩

end Section

def oneFunctionBytes : List UInt8 :=
  [0x14, 0, 0, 0, 0, 0, 0, 0, 1, 0x7a, 0x52, 0, 1, 0x78, 0x10, 1, 0x1b, 0x0c, 0x07, 0x08, 0x90, 0x01, 0, 0,
    0x14, 0, 0, 0, 0x1c, 0, 0, 0, 0xe0, 0x0f, 0, 0, 0x10, 0, 0, 0, 0, 0x41, 0x0e, 0x10, 0x86, 0x02, 0x43, 0,
    0, 0, 0, 0]

theorem oneFunctionBytes_lt : oneFunctionBytes.length < 2 ^ 63 := by decide

def oneFunction : Slice UInt8 := .ofList oneFunctionBytes oneFunctionBytes_lt

theorem exact_oneFunction : ∃ rows, compileSection 16 oneFunction 0 archX86_64 = .ok rows ∧
      SectionExact 16 oneFunction archX86_64 0 rows := by
  have hone : (compileSection 16 oneFunction 0 archX86_64).any (fun rows => decide (rows.length = 2)) = true := by
    decide +kernel
  obtain ⟨rows, hrows, -⟩ := Outcome.exists_of_any hone
  refine ⟨rows, hrows, (exact_iff_fits hrows).mpr ?_⟩
  exact @of_decide_eq_true _ (List.decidableBAll (fun p : Compiled => p.Fits 16 oneFunction archX86_64) _)
    (by decide +kernel)

/-- The same CIE, and an FDE whose CFA offset is `2 ^ 32 + 16`. -/
def wideOffset : Slice UInt8 :=
  .ofList [0x14, 0, 0, 0, 0, 0, 0, 0, 1, 0x7a, 0x52, 0, 1, 0x78, 0x10, 1, 0x1b, 0x0c, 0x07, 0x08, 0x90, 0x01, 0, 0,
      0x14, 0, 0, 0, 0x1c, 0, 0, 0, 0xe0, 0x0f, 0, 0, 0x10, 0, 0, 0, 0, 0x41, 0x0e, 0x90, 0x80, 0x80, 0x80, 0x10,
      0, 0, 0, 0] (by decide)

/-- The second row has the offset 16. -/
theorem not_exact :
    ¬∀ (fuel : Nat) (data : Slice UInt8) (sectionPos : UInt64) (arch : ArchInfo) (allEntries : List CFIEntry),
      compileSection fuel data sectionPos arch = .ok allEntries → SectionExact fuel data arch sectionPos allEntries := by
  intro h
  have hone : (compileSection 16 wideOffset 0 archX86_64).any
      (fun rows => decide (rows.map CFIEntry.cfaOffset = [8, 16])) = true := by decide +kernel
  obtain ⟨rows, hrows, -⟩ := Outcome.exists_of_any hone
  obtain ⟨-, hexact⟩ := h 16 wideOffset 0 archX86_64 rows hrows
  have hfits : ∀ p ∈ compiledSection 16 wideOffset 0 archX86_64, p.Fits 16 wideOffset archX86_64 :=
    fun p hp => (Compiled.exact_iff hp).mp (hexact p hp)
  exact absurd hfits (@of_decide_eq_true _
    (@instDecidableNot _ (List.decidableBAll (fun p : Compiled => p.Fits 16 wideOffset archX86_64) _))
    (by decide +kernel))

end PerfAgent.Unwind
