import PerfAgent.Unwind.Interpreter

/-!
# Reading a CFI program

Reading an instruction at a position inside a program always returns, and the position after
the operands is further on and still inside.  Only a block can send the position somewhere
else.  A program none of whose blocks does is a list of instructions, and the loop of `run`
carries these out one after the other.
-/

namespace PerfAgent.Unwind

open Outcome

/-- The reader returns, with a position that is no further back and inside the program. -/
def Moves {α : Type} (program : Slice UInt8) (pos : Int) (x : Go (α × Int)) : Prop :=
  x.Ensures fun r => pos ≤ r.2 ∧ r.2 ≤ (program.len : Int)

namespace Moves

variable {α β : Type} {program : Slice UInt8} {pos : Int}

theorem pure (h : pos ≤ program.len) (a : α) : Moves program pos (Pure.pure (a, pos)) := ⟨le_refl _, h⟩

theorem bind {x : Go (α × Int)} {f : α × Int → Go (β × Int)} (hx : Moves program pos x)
    (hf : ∀ a pos', pos ≤ pos' → pos' ≤ program.len → Moves program pos' (f (a, pos'))) :
    Moves program pos (x >>= f) := by
  refine Outcome.Ensures.bind hx ?_
  rintro ⟨a, pos'⟩ ⟨hle, hlen⟩
  have hrest := hf a pos' hle hlen
  refine .of_returns hrest.returns ?_
  intro r hr
  obtain ⟨hle', hlen'⟩ := hrest.of_eq hr
  exact ⟨le_trans hle hle', hlen'⟩

theorem of_consumes {f : Slice UInt8 → Go (α × Nat)} (hf : ∀ b, Consumes b (f b)) (h₀ : 0 ≤ pos)
    (h : pos ≤ program.len) :
    Moves program pos (program.suffix pos >>= fun b => f b >>= fun r => Pure.pure (r.1, pos + r.2)) := by
  refine Outcome.Ensures.bind (Slice.suffix_ensures h₀ h) ?_
  rintro b ⟨hlen, -⟩
  refine Outcome.Ensures.bind (hf b) ?_
  rintro ⟨a, n⟩ hn
  show pos ≤ pos + n ∧ pos + n ≤ program.len
  dsimp only at hn
  omega

theorem uleb128At (h₀ : 0 ≤ pos) (h : pos ≤ program.len) : Moves program pos (uleb128At program pos) :=
  of_consumes consumes_decodeULEB128 h₀ h

theorem sleb128At (h₀ : 0 ≤ pos) (h : pos ≤ program.len) : Moves program pos (sleb128At program pos) :=
  of_consumes consumes_decodeSLEB128 h₀ h

theorem pointerAt (enc : UInt8) (h₀ : 0 ≤ pos) (h : pos ≤ program.len) :
    Moves program pos (pointerAt enc program pos) :=
  of_consumes (fun b => consumes_decodeEHPointer b enc 0 0) h₀ h

theorem fixedAt (n : Nat) (h₀ : 0 ≤ pos) (h : pos ≤ program.len) : Moves program pos (fixedAt n program pos) := by
  refine .ite (fun _ => trivial) fun hn => ?_
  refine Outcome.Ensures.bind (Slice.suffix_ensures h₀ h) ?_
  rintro b ⟨hlen, -⟩
  have hword : (littleEndian n b).Ensures fun _ => True :=
    .of_returns (littleEndian_returns (by omega)) fun _ _ => trivial
  refine Outcome.Ensures.bind hword ?_
  rintro v -
  show pos ≤ pos + n ∧ pos + n ≤ program.len
  omega

theorem then_pure {x : Go (α × Int)} (hx : Moves program pos x) (g : α → β) :
    Moves program pos (x >>= fun r => Pure.pure (g r.1, r.2)) :=
  hx.bind fun _ _ _ h => .pure h _

end Moves

section Operands

variable {enc : UInt8} {program : Slice UInt8} {pos : Int}

theorem moves_one (h₀ : 0 ≤ pos) (h : pos ≤ program.len) (g : UInt64 → Instr) :
    Moves program pos (uleb128At program pos >>= fun r => pure (g r.1, r.2)) :=
  (Moves.uleb128At h₀ h).then_pure g

theorem moves_oneSigned (h₀ : 0 ≤ pos) (h : pos ≤ program.len) (g : Int64 → Instr) :
    Moves program pos (sleb128At program pos >>= fun r => pure (g r.1, r.2)) :=
  (Moves.sleb128At h₀ h).then_pure g

theorem moves_two (h₀ : 0 ≤ pos) (h : pos ≤ program.len) (g : UInt64 → UInt64 → Instr) :
    Moves program pos (uleb128At program pos >>= fun r =>
      uleb128At program r.2 >>= fun q => pure (g r.1 q.1, q.2)) :=
  (Moves.uleb128At h₀ h).bind fun reg _ hle h' => moves_one (le_trans h₀ hle) h' (g reg)

theorem moves_twoSigned (h₀ : 0 ≤ pos) (h : pos ≤ program.len) (g : UInt64 → Int64 → Instr) :
    Moves program pos (uleb128At program pos >>= fun r =>
      sleb128At program r.2 >>= fun q => pure (g r.1 q.1, q.2)) :=
  (Moves.uleb128At h₀ h).bind fun reg _ hle h' => moves_oneSigned (le_trans h₀ hle) h' (g reg)

theorem moves_operands (op : UInt8) (h₀ : 0 ≤ pos) (h : pos ≤ program.len) :
    Moves program pos (operands enc program op pos) := by
  refine .ite (fun _ => Moves.pure h _) fun _ => ?_
  refine .ite (fun _ => moves_one h₀ h fun factor => .offset (op &&& cfaOperandMask).toUInt64 factor) fun _ => ?_
  refine .ite (fun _ => Moves.pure h _) fun _ => ?_
  refine .ite (fun _ => Moves.pure h _) fun _ => ?_
  refine .ite (fun _ => (Moves.fixedAt 1 h₀ h).then_pure Instr.advanceLoc) fun _ => ?_
  refine .ite (fun _ => (Moves.fixedAt 2 h₀ h).then_pure Instr.advanceLoc) fun _ => ?_
  refine .ite (fun _ => (Moves.fixedAt 4 h₀ h).then_pure Instr.advanceLoc) fun _ => ?_
  refine .ite (fun _ => moves_two h₀ h .defCFA) fun _ => ?_
  refine .ite (fun _ => moves_twoSigned h₀ h .defCFASF) fun _ => ?_
  refine .ite (fun _ => moves_one h₀ h .defCFARegister) fun _ => ?_
  refine .ite (fun _ => moves_one h₀ h .defCFAOffset) fun _ => ?_
  refine .ite (fun _ => moves_oneSigned h₀ h .defCFAOffsetSF) fun _ => ?_
  refine .ite (fun _ => moves_two h₀ h .offset) fun _ => ?_
  refine .ite (fun _ => moves_twoSigned h₀ h .offsetExtendedSF) fun _ => ?_
  refine .ite (fun _ => moves_one h₀ h .undefined) fun _ => ?_
  refine .ite (fun _ => moves_one h₀ h .sameValue) fun _ => ?_
  refine .ite (fun _ => moves_two h₀ h .register) fun _ => ?_
  refine .ite (fun _ => moves_one h₀ h .restore) fun _ => ?_
  refine .ite (fun _ => Moves.pure h _) fun _ => ?_
  refine .ite (fun _ => Moves.pure h _) fun _ => ?_
  refine .ite (fun _ => moves_one h₀ h .defCFAExpression) fun _ => ?_
  refine .ite (fun _ => moves_two h₀ h .expression) fun _ => ?_
  refine .ite (fun _ => (Moves.pointerAt enc h₀ h).then_pure fun newPC => Instr.setLoc newPC pos) fun _ => ?_
  refine .ite (fun _ => Moves.pure h _) fun _ => ?_
  refine .ite (fun _ => moves_one h₀ h fun _ => .nop) fun _ => ?_
  refine .ite (fun _ => moves_two h₀ h fun reg _ => .valOffset reg) fun _ => ?_
  exact .ite (fun _ => moves_twoSigned h₀ h fun reg _ => .valOffset reg) fun _ => trivial


theorem fetch_ensures (h₀ : 0 ≤ pos) (h : pos < program.len) :
    (fetch enc program pos).Ensures fun r => pos < r.2 ∧ r.2 ≤ (program.len : Int) := by
  have hop : (program.index pos : Go UInt8).Ensures fun _ => True :=
    .of_returns (Slice.index_returns h₀ h) fun _ _ => trivial
  refine Outcome.Ensures.bind hop ?_
  rintro op -
  have hop : Moves program (pos + 1) (operands enc program op (pos + 1)) :=
    moves_operands op (by omega) (by omega)
  refine .of_returns hop.returns ?_
  intro r hr
  have := hop.of_eq hr
  omega

end Operands

/-! ## Carrying out instructions -/

theorem exec_returns (s : Interp) (i : Instr) : (exec s i).Returns := by
  cases i with
  | setLoc newPC operand =>
    rw [exec]
    split <;> trivial
  | rememberState =>
    rw [exec]
    split <;> trivial
  | restoreState =>
    rw [exec]
    split <;> trivial
  | _ => trivial

theorem setRegRule_frame (s : Interp) (reg : UInt8) (r : RegRule) :
    s.setRegRule reg r = { s with rules := (s.setRegRule reg r).rules } := by
  unfold Interp.setRegRule
  split
  · rfl
  · split <;> rfl

theorem restoreRegInitial_frame (s : Interp) (reg : UInt8) :
    s.restoreRegInitial reg = { s with rules := (s.restoreRegInitial reg).rules } := by
  unfold Interp.restoreRegInitial
  split
  · rfl
  · split <;> rfl

theorem snapshot_frame (s : Interp) (newPC : UInt64) : s.snapshot newPC =
      { s with
        lastEmittedPC := (s.snapshot newPC).lastEmittedPC
        lastState := (s.snapshot newPC).lastState
        emitted := (s.snapshot newPC).emitted } := by
  unfold Interp.snapshot
  split
  · rfl
  · split
    · rfl
    · split
      · rfl
      · dsimp only
        split
        · rfl
        · split <;> rfl

theorem snapshotAndAdvance_eq (s : Interp) (delta : UInt64) :
    s.snapshotAndAdvance delta = { s.snapshot (s.pc + delta) with pc := s.pc + delta } := by
  have hpc : (s.snapshot (s.pc + delta)).pc = s.pc := by rw [snapshot_frame]
  unfold Interp.snapshotAndAdvance
  dsimp only
  rw [hpc]

theorem snapshot_cie (s : Interp) (newPC : UInt64) : (s.snapshot newPC).cie = s.cie := by
  rw [snapshot_frame]

theorem exec_cie {s s' : Interp} {i : Instr} (h : exec s i = .ok s') : s'.cie = s.cie := by
  cases i with
  | setLoc newPC operand =>
    rw [exec] at h
    split at h
    · cases h
    · cases h
      exact snapshot_cie s _
  | advanceLoc factor =>
    cases h
    exact snapshot_cie s _
  | offset reg factor =>
    cases h
    rw [Interp.setRegOffset, setRegRule_frame]
  | offsetExtendedSF reg factor =>
    cases h
    rw [Interp.setRegOffset, setRegRule_frame]
  | undefined reg =>
    cases h
    rw [setRegRule_frame]
  | sameValue reg =>
    cases h
    rw [setRegRule_frame]
  | register reg other =>
    cases h
    rw [setRegRule_frame]
  | restore reg =>
    cases h
    rw [restoreRegInitial_frame]
  | rememberState =>
    rw [exec] at h
    split at h
    · cases h
    · cases h
      rfl
  | restoreState =>
    rw [exec] at h
    split at h
    · cases h
    · cases h
      rfl
  | _ =>
    cases h
    rfl

theorem loop_cie {program : Slice UInt8} {fuel : Nat} {pos : Int} {s s' : Interp}
    (h : loop program fuel pos s = .ok s') : s'.cie = s.cie := by
  induction fuel generalizing pos s with
  | zero =>
    rw [loop] at h
    split at h
    · cases h
    · cases h
      rfl
  | succ fuel ih =>
    rw [loop] at h
    split at h
    · obtain ⟨⟨i, pos'⟩, -, hrest⟩ := bind_eq_ok.mp h
      obtain ⟨s₁, hexec, hloop⟩ := bind_eq_ok.mp hrest
      exact (ih hloop).trans (exec_cie hexec)
    · cases h
      rfl

/-! ## Programs without a jump -/

theorem toInt_toInt64 (x : UInt64) : x.toInt64.toInt = (x.toNat : Int).bmod (2 ^ 64) :=
  BitVec.toInt_eq_toNat_bmod _

theorem afterBlock_eq {i : Instr} {pos : Int} (h₀ : 0 ≤ pos) (h : pos + i.blockLength.toNat < 2 ^ 63) :
    afterBlock i pos = pos + i.blockLength.toNat := by
  rw [afterBlock, wrapInt, toInt_toInt64, Int.add_bmod_bmod]
  refine Int.bmod_eq_of_le ?_ ?_ <;> omega

/-- The instructions of a program read one after the other, with no block so long that the
position after it is not an `int`. -/
inductive ReadsAs (enc : UInt8) (program : Slice UInt8) : Int → List Instr → Prop
  | done {pos : Int} : program.len ≤ pos → ReadsAs enc program pos []
  | step {pos pos' : Int} {i : Instr} {is : List Instr} :
      pos < program.len → fetch enc program pos = .ok (i, pos') →
        pos' + i.blockLength.toNat < 2 ^ 63 → ReadsAs enc program (pos' + i.blockLength.toNat) is →
          ReadsAs enc program pos (i :: is)

/-- At most `n` instructions, read one after the other. -/
def instructionsFrom (enc : UInt8) (program : Slice UInt8) : Nat → Int → Option (List Instr)
  | 0, pos => if program.len ≤ pos then some [] else none
  | n + 1, pos =>
    if program.len ≤ pos then some []
    else
      match fetch enc program pos with
      | .ok (i, pos') =>
        if pos' + i.blockLength.toNat < 2 ^ 63 then
          (instructionsFrom enc program n (pos' + i.blockLength.toNat)).map fun is => i :: is
        else none
      | _ => none

variable {is : List Instr}

theorem readsAs_of_instructionsFrom {enc : UInt8} {program : Slice UInt8} {n : Nat} {pos : Int}
    (h : instructionsFrom enc program n pos = some is) : ReadsAs enc program pos is := by
  induction n generalizing pos is with
  | zero =>
    obtain ⟨hend, heq⟩ := Option.ite_none_right_eq_some.mp h
    cases heq
    exact .done hend
  | succ n ih =>
    rw [instructionsFrom] at h
    split at h
    · next hend =>
      cases h
      exact .done hend
    · next hlt =>
      split at h
      · next i pos' hfetch =>
        obtain ⟨hblock, hmap⟩ := Option.ite_none_right_eq_some.mp h
        obtain ⟨is', his', heq⟩ := Option.map_eq_some_iff.mp hmap
        cases heq
        exact .step (Int.not_le.mp hlt) hfetch hblock (ih his')
      · cases h

theorem ReadsAs.loop_eq_ok {enc : UInt8} {program : Slice UInt8} {pos : Int} (hread : ReadsAs enc program pos is)
    (h₀ : 0 ≤ pos) {fuel : Nat} {s s' : Interp} (henc : s.cie.fdePointerEnc = enc)
    (h : loop program fuel pos s = .ok s') : is.foldlM exec s = .ok s' := by
  induction hread generalizing fuel s with
  | done hend =>
    have hnot := Int.not_lt.mpr hend
    cases fuel with
    | zero =>
      rw [loop, if_neg hnot] at h
      exact h
    | succ fuel =>
      rw [loop, if_neg hnot] at h
      exact h
  | @step pos pos' i is hlt hfetch hblock _ ih =>
    cases fuel with
    | zero =>
      rw [loop, if_pos hlt] at h
      cases h
    | succ fuel =>
      rw [loop, if_pos hlt, henc, hfetch] at h
      obtain ⟨⟨i', pos''⟩, heq, hrest⟩ := bind_eq_ok.mp h
      cases heq
      obtain ⟨s₁, hexec, hloop⟩ := bind_eq_ok.mp hrest
      have hpos : pos < pos' := ((fetch_ensures h₀ hlt).of_eq hfetch).1
      rw [afterBlock_eq (by omega) hblock] at hloop
      refine bind_eq_ok.mpr ⟨s₁, hexec, ih (by omega) ?_ hloop⟩
      rw [exec_cie hexec, henc]

end PerfAgent.Unwind
