import PerfAgent.Unwind.Emissions
import PerfAgent.Unwind.Leb128

/-!
# The numbers that a section states

The numbers of a CFI program and of its CIE as they stand in the section, without a bound.  What
the interpreter is handed is the low 64 bits of each.
-/

namespace PerfAgent.Unwind

open List Outcome

/-! ## Operands -/

/-- The register and the number that an instruction states, of those that rules are made from. -/
structure Numbers where
  reg : Nat := 0
  num : Int := 0
deriving DecidableEq

def exactOperands : List UInt8 → Numbers
  | [] => {}
  | op :: bs =>
    let rest := bs.drop (lebLength bs)
    if op &&& cfaOpcodeMask = cfaOffset then { reg := (op &&& cfaOperandMask).toNat, num := ulebValue bs }
    else if op &&& cfaOpcodeMask = cfaRestore then { reg := (op &&& cfaOperandMask).toNat }
    else if op = cfaDefCFA ∨ op = cfaOffsetExtended then { reg := ulebValue bs, num := ulebValue rest }
    else if op = cfaDefCFASF ∨ op = cfaOffsetExtendedSF then { reg := ulebValue bs, num := slebValue rest }
    else if op = cfaDefCFAOffset then { num := ulebValue bs }
    else if op = cfaDefCFAOffsetSF then { num := slebValue bs }
    else { reg := ulebValue bs }

variable {l : List UInt8} {pos' : Int}

/-- The operands of the instruction are the low 64 bits of the numbers. -/
def Instr.Reads (n : Numbers) : Instr → Prop
  | .offset reg factor => reg.toNat = n.reg % 2 ^ 64 ∧ (factor.toNat : Int) = n.num % 2 ^ 64
  | .offsetExtendedSF reg factor => reg.toNat = n.reg % 2 ^ 64 ∧ factor.toInt = n.num.bmod (2 ^ 64)
  | .restore reg => reg.toNat = n.reg % 2 ^ 64
  | .undefined reg => reg.toNat = n.reg % 2 ^ 64
  | .sameValue reg => reg.toNat = n.reg % 2 ^ 64
  | .register reg _ => reg.toNat = n.reg % 2 ^ 64
  | .defCFA reg off => reg.toNat = n.reg % 2 ^ 64 ∧ (off.toNat : Int) = n.num % 2 ^ 64
  | .defCFASF reg off => reg.toNat = n.reg % 2 ^ 64 ∧ off.toInt = n.num.bmod (2 ^ 64)
  | .defCFARegister reg => reg.toNat = n.reg % 2 ^ 64
  | .defCFAOffset off => (off.toNat : Int) = n.num % 2 ^ 64
  | .defCFAOffsetSF off => off.toInt = n.num.bmod (2 ^ 64)
  | _ => True

section Operands

variable {enc : UInt8} {program : Slice UInt8} {pos : Int}

theorem uleb128At_reads {v : UInt64} (hl : program.toList.drop pos.toNat <+: l)
    (h : uleb128At program pos = .ok (v, pos')) :
    v.toNat = ulebValue l % 2 ^ 64 ∧ pos' = pos + lebLength l ∧ 0 ≤ pos := by
  obtain ⟨b, hb, hrest⟩ := bind_eq_ok.mp h
  obtain ⟨⟨v', n⟩, hdecode, heq⟩ := bind_eq_ok.mp hrest
  cases heq
  rw [← Slice.toList_suffix hb] at hl
  obtain ⟨hv, hn⟩ := decodeULEB128_exact hl hdecode
  exact ⟨hv, by rw [hn], (Slice.suffix_eq_ok hb).1⟩

theorem sleb128At_reads {v : Int64} (hl : program.toList.drop pos.toNat <+: l)
    (h : sleb128At program pos = .ok (v, pos')) :
    v.toInt = (slebValue l).bmod (2 ^ 64) ∧ pos' = pos + lebLength l ∧ 0 ≤ pos := by
  obtain ⟨b, hb, hrest⟩ := bind_eq_ok.mp h
  obtain ⟨⟨v', n⟩, hdecode, heq⟩ := bind_eq_ok.mp hrest
  cases heq
  rw [← Slice.toList_suffix hb] at hl
  obtain ⟨hv, hn⟩ := decodeSLEB128_exact hl hdecode
  exact ⟨hv, by rw [hn], (Slice.suffix_eq_ok hb).1⟩

variable {n : Numbers}

theorem reads_one (h₀ : 0 ≤ pos) (h : pos ≤ program.len) {g : UInt64 → Instr}
    (hg : ∀ v, v.toNat = ulebValue (program.toList.drop pos.toNat) % 2 ^ 64 → (g v).Reads n) :
    (uleb128At program pos >>= fun r => pure (g r.1, r.2)).Ensures fun r => r.1.Reads n := by
  refine Outcome.Ensures.bind
    (Outcome.Ensures.of_returns (Moves.uleb128At h₀ h).returns fun r hr => uleb128At_reads (prefix_refl _) hr) ?_
  rintro ⟨v, pos'⟩ ⟨hv, -, -⟩
  exact hg v hv

theorem reads_oneSigned (h₀ : 0 ≤ pos) (h : pos ≤ program.len) {g : Int64 → Instr}
    (hg : ∀ v, v.toInt = (slebValue (program.toList.drop pos.toNat)).bmod (2 ^ 64) → (g v).Reads n) :
    (sleb128At program pos >>= fun r => pure (g r.1, r.2)).Ensures fun r => r.1.Reads n := by
  refine Outcome.Ensures.bind
    (Outcome.Ensures.of_returns (Moves.sleb128At h₀ h).returns fun r hr => sleb128At_reads (prefix_refl _) hr) ?_
  rintro ⟨v, pos'⟩ ⟨hv, -, -⟩
  exact hg v hv

theorem drop_next (h₀ : 0 ≤ pos) (n : Nat) :
    program.toList.drop (pos + n).toNat = (program.toList.drop pos.toNat).drop n := by
  rw [drop_drop]
  congr 1
  omega

theorem reads_two (h₀ : 0 ≤ pos) (h : pos ≤ program.len) {g : UInt64 → UInt64 → Instr}
    (hg : ∀ v w, v.toNat = ulebValue (program.toList.drop pos.toNat) % 2 ^ 64 →
      w.toNat = ulebValue ((program.toList.drop pos.toNat).drop (lebLength (program.toList.drop pos.toNat))) % 2 ^ 64 →
        (g v w).Reads n) :
    (uleb128At program pos >>= fun r => uleb128At program r.2 >>= fun q => pure (g r.1 q.1, q.2)).Ensures
      fun r => r.1.Reads n := by
  refine Outcome.Ensures.bind (Outcome.Ensures.of_returns (Moves.uleb128At h₀ h).returns fun r hr =>
    And.intro (uleb128At_reads (prefix_refl _) hr) ((Moves.uleb128At h₀ h).of_eq hr)) ?_
  rintro ⟨v, pos'⟩ ⟨⟨hv, rfl, -⟩, hle, hlen⟩
  refine reads_one (le_trans h₀ hle) hlen fun w hw => hg v w hv ?_
  rw [hw, drop_next h₀]

theorem reads_twoSigned (h₀ : 0 ≤ pos) (h : pos ≤ program.len) {g : UInt64 → Int64 → Instr}
    (hg : ∀ v w, v.toNat = ulebValue (program.toList.drop pos.toNat) % 2 ^ 64 →
      w.toInt = (slebValue ((program.toList.drop pos.toNat).drop (lebLength (program.toList.drop pos.toNat)))).bmod
        (2 ^ 64) → (g v w).Reads n) :
    (uleb128At program pos >>= fun r => sleb128At program r.2 >>= fun q => pure (g r.1 q.1, q.2)).Ensures
      fun r => r.1.Reads n := by
  refine Outcome.Ensures.bind (Outcome.Ensures.of_returns (Moves.uleb128At h₀ h).returns fun r hr =>
    And.intro (uleb128At_reads (prefix_refl _) hr) ((Moves.uleb128At h₀ h).of_eq hr)) ?_
  rintro ⟨v, pos'⟩ ⟨⟨hv, rfl, -⟩, hle, hlen⟩
  refine reads_oneSigned (le_trans h₀ hle) hlen fun w hw => hg v w hv ?_
  rw [hw, drop_next h₀]

theorem toNat_opcodeRegister (op : UInt8) :
    (op &&& cfaOperandMask).toUInt64.toNat = (op &&& cfaOperandMask).toNat % 2 ^ 64 := by
  have := (op &&& cfaOperandMask).toNat_lt
  rw [UInt8.toNat_toUInt64, Nat.mod_eq_of_lt (by omega)]

theorem operands_reads (op : UInt8) (h₀ : 0 ≤ pos) (h : pos ≤ program.len) :
    (operands enc program op pos).Ensures fun r =>
      r.1.Reads (exactOperands (op :: program.toList.drop pos.toNat)) := by
  have hfixed : ∀ n, (fixedAt n program pos >>= fun r => pure (Instr.advanceLoc r.1, r.2)).Ensures
      fun r => r.1.Reads (exactOperands (op :: program.toList.drop pos.toNat)) := fun n =>
    Outcome.Ensures.bind (Outcome.Ensures.of_returns (Moves.fixedAt n h₀ h).returns fun _ _ => trivial)
      fun _ (_ : True) => trivial
  refine .ite (fun _ => trivial) fun _ => ?_
  refine .ite (fun hmask => reads_one h₀ h fun v hv => ?_) fun _ => ?_
  · rw [exactOperands, if_pos hmask]
    exact ⟨toNat_opcodeRegister op, congrArg Int.ofNat hv⟩
  refine .ite (fun hmask => ?_) fun _ => ?_
  · have hnot : ¬op &&& cfaOpcodeMask = cfaOffset := by
      rw [hmask]
      decide
    show (op &&& cfaOperandMask).toUInt64.toNat = _
    rw [exactOperands, if_neg hnot, if_pos hmask]
    exact toNat_opcodeRegister op
  refine .ite (fun _ => trivial) fun _ => ?_
  refine .ite (fun _ => hfixed 1) fun _ => ?_
  refine .ite (fun _ => hfixed 2) fun _ => ?_
  refine .ite (fun _ => hfixed 4) fun _ => ?_
  refine .ite (fun hop => reads_two h₀ h fun v w hv hw => ?_) fun _ => ?_
  · subst hop
    exact ⟨hv, congrArg Int.ofNat hw⟩
  refine .ite (fun hop => reads_twoSigned h₀ h fun v w hv hw => ?_) fun _ => ?_
  · subst hop
    exact ⟨hv, hw⟩
  refine .ite (fun hop => reads_one h₀ h fun v hv => ?_) fun _ => ?_
  · subst hop
    exact hv
  refine .ite (fun hop => reads_one h₀ h fun v hv => ?_) fun _ => ?_
  · subst hop
    exact congrArg Int.ofNat hv
  refine .ite (fun hop => reads_oneSigned h₀ h fun v hv => ?_) fun _ => ?_
  · subst hop
    exact hv
  refine .ite (fun hop => reads_two h₀ h fun v w hv hw => ?_) fun _ => ?_
  · subst hop
    exact ⟨hv, congrArg Int.ofNat hw⟩
  refine .ite (fun hop => reads_twoSigned h₀ h fun v w hv hw => ?_) fun _ => ?_
  · subst hop
    exact ⟨hv, hw⟩
  refine .ite (fun hop => reads_one h₀ h fun v hv => ?_) fun _ => ?_
  · subst hop
    exact hv
  refine .ite (fun hop => reads_one h₀ h fun v hv => ?_) fun _ => ?_
  · subst hop
    exact hv
  refine .ite (fun hop => reads_two h₀ h fun v w hv _ => ?_) fun _ => ?_
  · subst hop
    exact hv
  refine .ite (fun hop => reads_one h₀ h fun v hv => ?_) fun _ => ?_
  · subst hop
    exact hv
  refine .ite (fun _ => trivial) fun _ => ?_
  refine .ite (fun _ => trivial) fun _ => ?_
  refine .ite (fun _ => reads_one (g := .defCFAExpression) h₀ h fun _ _ => trivial) fun _ => ?_
  refine .ite (fun _ => reads_two (g := .expression) h₀ h fun _ _ _ _ => trivial) fun _ => ?_
  refine .ite (fun _ => ?_) fun _ => ?_
  · exact Outcome.Ensures.bind (Q := fun _ => True)
      (.of_returns (Moves.pointerAt enc h₀ h).returns fun _ _ => trivial) fun _ _ => trivial
  refine .ite (fun _ => trivial) fun _ => ?_
  refine .ite (fun _ => reads_one (g := fun _ => .nop) h₀ h fun _ _ => trivial) fun _ => ?_
  refine .ite (fun _ => reads_two (g := fun reg _ => .valOffset reg) h₀ h fun _ _ _ _ => trivial) fun _ => ?_
  exact .ite (fun _ => reads_twoSigned (g := fun reg _ => .valOffset reg) h₀ h fun _ _ _ _ => trivial) fun _ => trivial

theorem fetch_reads {i : Instr} (h : fetch enc program pos = .ok (i, pos')) :
    i.Reads (exactOperands (program.toList.drop pos.toNat)) := by
  obtain ⟨op, hop, hoperands⟩ := bind_eq_ok.mp h
  unfold Slice.index at hop
  split at hop
  · next h₀ =>
    split at hop
    · next op' hget =>
      cases hop
      obtain ⟨hlt, hget⟩ := List.getElem?_eq_some_iff.mp hget
      have hlen : pos.toNat < program.len := program.length_toList ▸ hlt
      have hdrop : program.toList.drop pos.toNat = op :: program.toList.drop (pos + 1).toNat := by
        rw [drop_eq_getElem_cons hlt, hget]
        congr 2
        omega
      rw [hdrop]
      exact (operands_reads op (by omega) (by omega)).of_eq hoperands
    · cases hop
  · cases hop

end Operands

/-! ## CIEs -/

structure CIENumbers where
  codeAlign : Nat
  dataAlign : Int
  raColumn : Nat
deriving DecidableEq

/-- The numbers of the CIE that the bytes start with: behind the length, the id, the version and the
augmentation string. -/
def cieNumbers (record : List UInt8) : CIENumbers :=
  let augmentation := record.drop 9
  let fields := augmentation.drop (augmentation.findIdx (· == 0) + 1)
  let fields₂ := fields.drop (lebLength fields)
  let fields₃ := fields₂.drop (lebLength fields₂)
  { codeAlign := ulebValue fields
    dataAlign := slebValue fields₂
    raColumn := ulebValue fields₃ }

structure CIE.Reads (c : CIE) (n : CIENumbers) : Prop where
  codeAlign : c.codeAlign.toNat = n.codeAlign % 2 ^ 64
  dataAlign : c.dataAlign.toInt = n.dataAlign.bmod (2 ^ 64)
  raColumn : c.raColumn.toNat = n.raColumn % 2 ^ 64

variable {h : CIEHeader}

theorem CIE.Reads.congr {c c' : CIE} {n : CIENumbers} (h : c.Reads n) (hcode : c'.codeAlign = c.codeAlign)
    (hdata : c'.dataAlign = c.dataAlign) (hra : c'.raColumn = c.raColumn) : c'.Reads n :=
  ⟨hcode ▸ h.codeAlign, hdata ▸ h.dataAlign, hra ▸ h.raColumn⟩

section CIE

variable {n : CIENumbers}

theorem parseAugmentationFrom_reads {data : Slice UInt8} {chars : List UInt8} {pos : Int} {c c' : CIE}
    (hc : c.Reads n) (h : parseAugmentationFrom data chars pos c = .ok c') : c'.Reads n := by
  induction chars generalizing pos c with
  | nil =>
    cases h
    exact hc
  | cons ch chars ih =>
    rw [parseAugmentationFrom] at h
    split at h
    · split at h
      · cases h
      · obtain ⟨enc, -, hrest⟩ := bind_eq_ok.mp h
        exact ih (c := { c with fdePointerEnc := enc }) (hc.congr rfl rfl rfl) hrest
    split at h
    · exact ih (c := { c with hasSignalFrame := true }) (hc.congr rfl rfl rfl) h
    split at h
    · split at h
      · cases h
      · obtain ⟨enc, -, hrest⟩ := bind_eq_ok.mp h
        obtain ⟨rest, -, hrest⟩ := bind_eq_ok.mp hrest
        obtain ⟨⟨personality, k⟩, -, hrest⟩ := bind_eq_ok.mp hrest
        exact ih hc hrest
    split at h
    · split at h
      · cases h
      · exact ih hc h
    split at h
    · exact ih hc h
    · cases h

theorem CIEHeader.finish_reads {c : CIE} (hc : h.cie.Reads n) (hfinish : h.finish = .ok c) : c.Reads n := by
  unfold CIEHeader.finish at hfinish
  split at hfinish
  · obtain ⟨⟨augLen, pos⟩, -, hrest⟩ := bind_eq_ok.mp hfinish
    obtain ⟨augData, -, hrest⟩ := bind_eq_ok.mp hrest
    obtain ⟨c', hparse, hrest⟩ := bind_eq_ok.mp hrest
    obtain ⟨instructions, -, heq⟩ := bind_eq_ok.mp hrest
    cases heq
    exact (parseAugmentationFrom_reads hc hparse).congr rfl rfl rfl
  · split at hfinish
    · obtain ⟨instructions, -, heq⟩ := bind_eq_ok.mp hfinish
      cases heq
      exact hc.congr rfl rfl rfl
    · split at hfinish
      · cases hfinish
      · cases hfinish

theorem findIdx_of_prefix {α : Type} {p : α → Bool} {bs l : List α} {k : Nat} (hl : bs <+: l)
    (h : bs.findIdx? p = some k) : l.findIdx p = k := by
  obtain ⟨t, rfl⟩ := hl
  rw [findIdx_eq_getD_findIdx?, findIdx?_append, h]
  rfl

theorem parseCIEBody_reads {body : Slice UInt8} (hl : body.toList <+: l.drop 4) (hparse : parseCIEBody body = .ok h) :
    h.cie.Reads (cieNumbers l) := by
  unfold parseCIEBody at hparse
  split at hparse
  · cases hparse
  obtain ⟨id, -, hparse⟩ := bind_eq_ok.mp hparse
  split at hparse
  · cases hparse
  obtain ⟨version, -, hparse⟩ := bind_eq_ok.mp hparse
  split at hparse
  · cases hparse
  obtain ⟨rest, hrest, hparse⟩ := bind_eq_ok.mp hparse
  split at hparse
  · cases hparse
  · next nul hnul =>
    obtain ⟨augmentation, -, hparse⟩ := bind_eq_ok.mp hparse
    obtain ⟨⟨codeAlign, pos₁⟩, hcode, hparse⟩ := bind_eq_ok.mp hparse
    obtain ⟨⟨dataAlign, pos₂⟩, hdata, hparse⟩ := bind_eq_ok.mp hparse
    obtain ⟨⟨raColumn, pos₃⟩, hra, heq⟩ := bind_eq_ok.mp hparse
    cases heq
    have hrest' : rest.toList <+: l.drop 9 := by
      rw [Slice.toList_suffix hrest]
      have := hl.drop 5
      rw [drop_drop] at this
      exact this
    have hfind : (l.drop 9).findIdx (· == 0) = nul := findIdx_of_prefix hrest' hnul
    have hfields : body.toList.drop (5 + (nul : Int) + 1).toNat <+: (l.drop 9).drop (nul + 1) := by
      have hpos : (5 + (nul : Int) + 1).toNat = 5 + nul + 1 := by omega
      have hsum : 4 + (5 + nul + 1) = 9 + (nul + 1) := by omega
      have := hl.drop (5 + nul + 1)
      rw [drop_drop, hsum] at this
      rw [hpos, drop_drop]
      exact this
    obtain ⟨hcode', rfl, h₁⟩ := uleb128At_reads hfields hcode
    have hfields₂ := hfields.drop (lebLength ((l.drop 9).drop (nul + 1)))
    rw [← drop_next h₁] at hfields₂
    obtain ⟨hdata', rfl, h₂⟩ := sleb128At_reads hfields₂ hdata
    have hfields₃ := hfields₂.drop
      (lebLength (((l.drop 9).drop (nul + 1)).drop (lebLength ((l.drop 9).drop (nul + 1)))))
    rw [← drop_next h₂] at hfields₃
    obtain ⟨hra', -, -⟩ := uleb128At_reads hfields₃ hra
    unfold cieNumbers
    dsimp only
    rw [hfind]
    exact ⟨hcode', hdata', hra'⟩

theorem parseCIE_reads {raw : Slice UInt8} {length : Nat} {c : CIE} (hl : raw.toList <+: l)
    (hread : uint32At raw 0 = .ok length) (hlen : raw.len = 4 + length) (hzero : length ≠ 0)
    (hmax : length ≠ 0xFFFFFFFF) (h : parseCIE raw = .ok c) : c.Reads (cieNumbers l) := by
  obtain ⟨hd, hhead, hfinish⟩ := bind_eq_ok.mp h
  rw [parseCIEHeader_eq hread (by omega) hzero hmax] at hhead
  obtain ⟨body, hbody, hparse⟩ := bind_eq_ok.mp hhead
  have hlist := Slice.toList_sub hbody (by omega)
  exact CIEHeader.finish_reads (parseCIEBody_reads (hlist.trans (hl.drop 4)) hparse) hfinish

end CIE

/-! ## The CIEs of a section -/

/-- The numbers of the CIE of an FDE, where it stands in the section. -/
def Compiled.cieNumbers (data : Slice UInt8) (p : Compiled) : CIENumbers :=
  Unwind.cieNumbers (data.toList.drop p.cieOff.toNat)

/-- Every CIE that the walk keeps has the numbers that stand at its place. -/
def Walk.Reads (data : Slice UInt8) (w : Walk) : Prop :=
  ∀ p ∈ w.cies, p.2.Reads (Unwind.cieNumbers (data.toList.drop p.1.toNat))

section Walk

variable {fuel : Nat} {data : Slice UInt8} {sectionPos : UInt64} {arch : ArchInfo}

theorem Walk.Reads.step {w w' : Walk} (h : w.Reads data)
    (hstep : walkStep fuel data sectionPos arch w = .ok (some w')) : w'.Reads data := by
  by_cases hrec : ∃ length, RecordAt data w.pos length
  · obtain ⟨length, hrec⟩ := hrec
    rw [walkStep_of_record hrec] at hstep
    obtain ⟨w₁, hw₁, heq⟩ := bind_eq_ok.mp hstep
    cases heq
    obtain ⟨word, -, hrest⟩ := bind_eq_ok.mp hw₁
    obtain ⟨raw, hraw, hrest⟩ := bind_eq_ok.mp hrest
    split at hrest
    · obtain ⟨c, hc, heq⟩ := bind_eq_ok.mp hrest
      cases heq
      refine forall_mem_cons.mpr ⟨?_, h⟩
      obtain ⟨hlen, hread, -⟩ := hrec.raw hraw
      have hend := hrec.end_le
      have hpos : (UInt64.ofNat w.pos).toNat = w.pos := by
        have := data.len_le
        have := data.cap_lt
        rw [UInt64.toNat_ofNat', Nat.mod_eq_of_lt (by omega)]
      have hlist : raw.toList <+: data.toList.drop w.pos := Slice.toList_sub hraw (by omega)
      show c.Reads (Unwind.cieNumbers (data.toList.drop (UInt64.ofNat w.pos).toNat))
      rw [hpos]
      exact parseCIE_reads hlist hread hlen hrec.ne_zero hrec.ne_max (mapError_eq_ok.mp hc)
    · dsimp only at hrest
      split at hrest
      · cases hrest
      · obtain ⟨f, -, hrest⟩ := bind_eq_ok.mp hrest
        obtain ⟨entries, -, heq⟩ := bind_eq_ok.mp hrest
        cases heq
        exact h
  · cases (walkStep_of_none (not_exists.mp hrec)).of_eq hstep

theorem cie_reads_of_mem {p : Compiled} (h : p ∈ compiledSection fuel data sectionPos arch) :
    p.fde.cie.Reads (p.cieNumbers data) := by
  obtain ⟨w, hw, hp⟩ := exists_walk_of_mem (I := Walk.Reads data) Walk.Reads.step (fun _ hp => by cases hp) h
  obtain ⟨-, -, raw, c, -, -, -, -, -, hc, hparse, -⟩ := Walk.compiled_eq_some.mp hp
  rw [(parseFDE_len hparse).1]
  exact hw _ (mem_of_lookup hc)

end Walk

/-! ## The operands of a run -/

/-- The operands of the instruction are the low 64 bits of the numbers. -/
def FDE.Action.Reads (n : Numbers) : FDE.Action → Prop
  | .carryOut _ i => i.Reads n
  | _ => True

def FDE.Action.StandsIn (program : Slice UInt8) : FDE.Action → Prop
  | .carryOut pos i => ∃ enc pos', fetch enc program pos = .ok (i, pos')
  | _ => False

/-- The actions with the numbers that the program states, which is another one after the end of the
CIE's. -/
def withNumbers (f : FDE) : List UInt8 → List FDE.Action → List (FDE.Action × Numbers)
  | _, [] => []
  | program, .carryOut pos i :: as =>
    (.carryOut pos i, exactOperands (program.drop pos.toNat)) :: withNumbers f program as
  | _, .endCIE :: as => (.endCIE, {}) :: withNumbers f f.instructions.toList as
  | program, .endFDE :: as => (.endFDE, {}) :: withNumbers f program as

theorem map_fst_withNumbers (f : FDE) (program : List UInt8) (as : List FDE.Action) :
    (withNumbers f program as).map Prod.fst = as := by
  induction as generalizing program with
  | nil => rfl
  | cons a as ih =>
    cases a with
    | carryOut pos i => exact congrArg _ (ih _)
    | endCIE => exact congrArg _ (ih _)
    | endFDE => exact congrArg _ (ih _)

theorem carriedOut_standsIn (program : Slice UInt8) (fuel : Nat) (pos : Int) (s : Interp) :
    ∀ a ∈ carriedOut program fuel pos s, a.StandsIn program := by
  induction fuel generalizing pos s with
  | zero => exact fun _ h => by cases h
  | succ fuel ih =>
    rw [carriedOut]
    split
    · split
      · next i pos' hfetch =>
        refine forall_mem_cons.mpr ⟨⟨_, pos', hfetch⟩, ?_⟩
        split
        · exact ih _ _
        · exact fun _ h => by cases h
      · exact fun _ h => by cases h
    · exact fun _ h => by cases h

theorem withNumbers_reads {f : FDE} {program : Slice UInt8} {as rest : List FDE.Action}
    (has : ∀ a ∈ as, a.StandsIn program)
    (hrest : ∀ q ∈ withNumbers f program.toList rest, q.1.Reads q.2) :
    ∀ q ∈ withNumbers f program.toList (as ++ rest), q.1.Reads q.2 := by
  induction as with
  | nil => exact hrest
  | cons a as ih =>
    obtain ⟨hfirst, hmore⟩ := forall_mem_cons.mp has
    cases a with
    | carryOut pos i =>
      obtain ⟨enc, pos', hfetch⟩ := hfirst
      exact forall_mem_cons.mpr ⟨fetch_reads hfetch, ih hmore⟩
    | endCIE => exact hfirst.elim
    | endFDE => exact hfirst.elim

namespace FDE

/-- What `Compile` has the interpreter do for an FDE, with the numbers that the programs state. -/
def numberedActions (fuel : Nat) (arch : ArchInfo) (f : FDE) : List (Action × Numbers) :=
  withNumbers f f.cie.initialInstructions.toList (f.actions fuel arch)

theorem numberedActions_reads (fuel : Nat) (arch : ArchInfo) (f : FDE) :
    ∀ q ∈ f.numberedActions fuel arch, q.1.Reads q.2 := by
  refine withNumbers_reads (carriedOut_standsIn _ _ _ _) (forall_mem_cons.mpr ⟨trivial, ?_⟩)
  split
  · refine withNumbers_reads (carriedOut_standsIn _ _ _ _) (forall_mem_cons.mpr ⟨trivial, ?_⟩)
    exact fun _ h => by cases h
  · exact fun _ h => by cases h

end FDE

end PerfAgent.Unwind
