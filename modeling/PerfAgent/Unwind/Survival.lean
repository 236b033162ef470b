import PerfAgent.Unwind.EhFrame
import PerfAgent.Unwind.Programs

/-!
# When the compiler survives its input

The section comes from a binary that nobody has vouched for.  The compiler panics where a
length field points past what it measures, and it can run backwards where the length of an
expression is so large that it is negative as an `int`.

`Walk.InRange` is the condition on the record that the walk has come to, and
`FDE.Forward` the condition on the programs of an FDE.  Under the second one the first is
exact: the compiler returns if and only if every record that it comes to is in range.
-/

namespace PerfAgent.Unwind

open Relation Outcome

/-! ## The loop of the interpreter -/

/-- One turn of the loop of `run`, as a relation between positions and states. -/
def LoopStep (program : Slice UInt8) (x y : Int × Interp) : Prop :=
  x.1 < program.len ∧ ∃ i pos s, fetch x.2.cie.fdePointerEnc program x.1 = .ok (i, pos) ∧
    exec x.2 i = .ok s ∧ y = (afterBlock i pos, s)

/-- Every block that the loop comes to ends at an `int`. -/
def BlocksFit (program : Slice UInt8) (x : Int × Interp) : Prop :=
  ∀ y, ReflTransGen (LoopStep program) x y → y.1 < program.len → ∀ i pos,
    fetch y.2.cie.fdePointerEnc program y.1 = .ok (i, pos) → pos + i.blockLength.toNat < 2 ^ 63

theorem BlocksFit.step {program : Slice UInt8} {x y : Int × Interp} (h : BlocksFit program x)
    (hxy : LoopStep program x y) : BlocksFit program y :=
  fun _ hz => h _ (.head hxy hz)

theorem loop_returns {program : Slice UInt8} {fuel : Nat} {pos : Int} {s : Interp}
    (h : BlocksFit program (pos, s)) (h₀ : 0 ≤ pos) (hfuel : program.len ≤ pos + fuel) :
    (loop program fuel pos s).Returns := by
  induction fuel generalizing pos s with
  | zero =>
    rw [loop, if_neg (by omega)]
    trivial
  | succ fuel ih =>
    rw [loop]
    split
    · next hlt =>
      refine (fetch_ensures h₀ hlt).returns.bind ?_
      rintro ⟨i, pos'⟩ hfetch
      refine (exec_returns s i).bind ?_
      intro s' hexec
      have hfit : pos' + i.blockLength.toNat < 2 ^ 63 := h _ .refl hlt i pos' hfetch
      have hpos : pos < pos' := ((fetch_ensures h₀ hlt).of_eq hfetch).1
      have hafter := afterBlock_eq (by omega) hfit
      refine ih (h.step ⟨hlt, i, pos', s', hfetch, hexec, rfl⟩) ?_ ?_
      · omega
      · omega
    · trivial

open Outcome in
theorem loop_upto {program : Slice UInt8} {n m : Nat} (h : n ≤ m) (pos : Int) (s : Interp) :
    Upto (loop program n pos s) (loop program m pos s) := by
  induction n generalizing m pos s with
  | zero =>
    by_cases hlt : pos < program.len
    · exact .inl (if_pos hlt)
    · cases m <;> simp [loop, hlt, Upto.refl]
  | succ n ih =>
    obtain ⟨m, rfl⟩ : ∃ k, m = k + 1 := ⟨m - 1, by omega⟩
    rw [loop, loop]
    refine Upto.ite ((Upto.refl _).bind fun r => (Upto.refl _).bind fun s' => ?_) (Upto.refl _)
    exact ih (by omega) _ _

theorem run_upto {n m : Nat} (h : n ≤ m) (s : Interp) (startPC endPC : UInt64) (program : Slice UInt8) :
    Outcome.Upto (s.run n startPC endPC program) (s.run m startPC endPC program) :=
  (loop_upto h 0 _).bind fun _ => .refl _

theorem interpret_upto {n m : Nat} (h : n ≤ m) (c : CIE) (arch : ArchInfo) (startPC endPC : UInt64)
    (program : Slice UInt8) :
    Outcome.Upto (interpret n c arch startPC endPC program) (interpret m c arch startPC endPC program) :=
  ((run_upto h _ _ _ _).mapError _).bind fun _ => (run_upto h _ _ _ _).mapError _

theorem run_returns {program : Slice UInt8} {fuel : Nat} {s : Interp} {startPC endPC : UInt64}
    (h : BlocksFit program (0, s.begin startPC)) (hfuel : program.len ≤ fuel) :
    (s.run fuel startPC endPC program).Returns :=
  (loop_returns h (le_refl _) (by omega)).bind fun _ _ => trivial

def FDE.between (f : FDE) (s : Interp) : Interp :=
  { s.sealInitialRules with lastEmittedPC := f.initialLocation }

/-- Every block that the programs of an FDE come to ends at an `int`. -/
structure FDE.Forward (arch : ArchInfo) (f : FDE) : Prop where
  cie : BlocksFit f.cie.initialInstructions (0, (newInterpreter f.cie arch).begin f.initialLocation)
  fde : ∀ fuel s, (newInterpreter f.cie arch).run fuel f.initialLocation f.initialLocation
    f.cie.initialInstructions = .ok s → BlocksFit f.instructions (0, (f.between s).begin f.initialLocation)

theorem BlocksFit.of_readsAs {enc : UInt8} {program : Slice UInt8} {pos : Int} {is : List Instr}
    (hread : ReadsAs enc program pos is) (h₀ : 0 ≤ pos) {s : Interp} (henc : s.cie.fdePointerEnc = enc) :
    BlocksFit program (pos, s) := by
  induction hread generalizing s with
  | done hend =>
    intro y hy hlt i pos' hfetch
    obtain rfl | ⟨z, hz, -⟩ := ReflTransGen.cases_head hy
    · exact absurd hlt (Int.not_lt.mpr hend)
    · exact absurd hz.1 (Int.not_lt.mpr hend)
  | @step pos pos' i is hlt hfetch hblock _ ih =>
    have hpos : pos < pos' := ((fetch_ensures h₀ hlt).of_eq hfetch).1
    intro y hy hy' j q hj
    obtain rfl | ⟨z, ⟨-, i', q', s', hfetch', hexec, rfl⟩, hreach⟩ := ReflTransGen.cases_head hy
    · rw [henc, hfetch] at hj
      cases hj
      exact hblock
    · rw [henc, hfetch] at hfetch'
      cases hfetch'
      rw [afterBlock_eq (by omega) hblock] at hreach
      refine ih (by omega) ?_ y hreach hy' j q hj
      rw [exec_cie hexec, henc]

theorem FDE.Forward.of_readsAs {arch : ArchInfo} {f : FDE} {is₀ is : List Instr}
    (hcie : ReadsAs f.cie.fdePointerEnc f.cie.initialInstructions 0 is₀)
    (hfde : ReadsAs f.cie.fdePointerEnc f.instructions 0 is) : f.Forward arch where
  cie := .of_readsAs hcie (le_refl _) rfl
  fde fuel s hs := by
    refine .of_readsAs hfde (le_refl _) ?_
    obtain ⟨s₁, hloop, heq⟩ := bind_eq_ok.mp hs
    cases heq
    have hs₁ : s₁.cie = f.cie := loop_cie hloop
    show (s₁.snapshot f.initialLocation).cie.fdePointerEnc = _
    rw [snapshot_cie, hs₁]

theorem compileFDE_returns {arch : ArchInfo} {f : FDE} {fuel : Nat} (h : f.Forward arch)
    (hcie : f.cie.initialInstructions.len ≤ fuel) (hfde : f.instructions.len ≤ fuel) :
    (compileFDE fuel arch f).Returns := by
  refine Outcome.Returns.bind (Outcome.Returns.bind ?_ ?_) fun _ _ => trivial
  · exact returns_mapError.mpr (run_returns h.cie hcie)
  · intro s hs
    exact returns_mapError.mpr (run_returns (h.fde fuel s (mapError_eq_ok.mp hs)) hfde)

/-! ## Words -/

theorem foldr_lt (bs : List UInt8) : bs.foldr (fun x v => x.toNat + 256 * v) 0 < 256 ^ bs.length := by
  induction bs with
  | nil => exact Nat.one_pos
  | cons b bs ih =>
    have hb := b.toNat_lt
    rw [List.foldr_cons, List.length_cons, pow_succ]
    omega

variable {lo : Int}

theorem uint32At_returns_iff {b : Slice UInt8} : (uint32At b lo).Returns ↔ 0 ≤ lo ∧ lo + 4 ≤ b.block.length := by
  unfold uint32At
  rw [returns_bind_iff, Slice.sub_returns_iff]
  constructor
  · rintro ⟨⟨h₀, -, h⟩, -⟩
    exact ⟨h₀, h⟩
  · rintro ⟨h₀, h⟩
    refine ⟨⟨h₀, by omega, h⟩, ?_⟩
    intro t ht
    have hlen := (Slice.sub_eq_ok ht).2.2.2.1
    exact littleEndian_returns (by omega)

theorem uint32At_lt {b : Slice UInt8} {v : Nat} (h : uint32At b lo = .ok v) : v < 2 ^ 32 := by
  obtain ⟨t, -, ht⟩ := bind_eq_ok.mp h
  unfold littleEndian at ht
  split at ht
  · next hlen =>
    cases ht
    have := foldr_lt (t.toList.take 4)
    rw [List.length_take, t.length_toList, Nat.min_eq_left hlen] at this
    exact this
  · cases ht

theorem uint32At_sub {data raw : Slice UInt8} {hi : Int} (h : data.sub lo hi = (.ok raw : Go _)) :
    uint32At raw 0 = uint32At data lo := by
  unfold uint32At
  have hsub : (raw.sub 0 (0 + 4) : Go _) = data.sub lo (lo + 4) := Slice.sub_sub h 4
  rw [hsub]

theorem recordBody_returns_iff {raw : Slice UInt8} {length : Nat} (hlt : length < 2 ^ 32)
    (hlen : 4 + length ≤ raw.block.length) : (recordBody raw length).Returns ↔ 4 + length < 2 ^ 32 := by
  unfold recordBody
  rw [Slice.sub_returns_iff]
  constructor
  · intro h
    omega
  · intro h
    rw [Nat.mod_eq_of_lt h]
    omega

theorem recordBody_len {raw body : Slice UInt8} {length : Nat} (hlt : 4 + length < 2 ^ 32)
    (h : recordBody raw length = .ok body) :
    body.len = length ∧ body.block.length ≤ raw.block.length := by
  have := Slice.sub_eq_ok h
  rw [Nat.mod_eq_of_lt hlt] at this
  omega

/-! ## CIEs -/

theorem findIdx?_lt {p : UInt8 → Bool} {l : List UInt8} {n : Nat} (h : l.findIdx? p = some n) :
    n < l.length := (List.findIdx?_eq_some_iff_getElem.mp h).1

theorem parseCIEBody_ensures (body : Slice UInt8) :
    (parseCIEBody body).Ensures fun h => h.body = body ∧ 0 ≤ h.pos ∧ h.pos ≤ (body.len : Int) := by
  have hcap := body.len_le
  refine .ite (fun _ => trivial) fun hlen => ?_
  have hid : (uint32At body 0).Ensures fun _ => True :=
    .of_returns (uint32At_returns_iff.mpr (by omega)) fun _ _ => trivial
  refine hid.bind ?_
  rintro id -
  refine .ite (fun _ => trivial) fun _ => ?_
  have hversion : (body.index 4 : Go UInt8).Ensures fun _ => True :=
    .of_returns (Slice.index_returns (by decide) (by omega)) fun _ _ => trivial
  refine hversion.bind ?_
  rintro version -
  refine .ite (fun _ => trivial) fun _ => ?_
  refine Outcome.Ensures.bind (Slice.suffix_ensures (by decide) (by omega)) ?_
  rintro rest ⟨hrest, -⟩
  split
  · trivial
  · next nul hnul =>
    have hnul' := findIdx?_lt hnul
    rw [Slice.length_toList] at hnul'
    refine Outcome.Ensures.bind (Slice.sub_ensures (by omega) (by omega) (by omega)) ?_
    rintro augmentation -
    refine Outcome.Ensures.bind (Moves.uleb128At (by omega) (by omega)) ?_
    rintro ⟨codeAlign, pos₁⟩ ⟨hle₁, hlen₁⟩
    refine Outcome.Ensures.bind (Moves.sleb128At (by omega) hlen₁) ?_
    rintro ⟨dataAlign, pos₂⟩ ⟨hle₂, hlen₂⟩
    refine Outcome.Ensures.bind (Moves.uleb128At (by omega) hlen₂) ?_
    rintro ⟨raColumn, pos₃⟩ ⟨hle₃, hlen₃⟩
    dsimp only at hle₁ hle₂ hle₃
    have hpos : 0 ≤ pos₃ := by omega
    exact ⟨rfl, hpos, hlen₃⟩

theorem parseCIEHeader_eq {raw : Slice UInt8} {length : Nat} (hread : uint32At raw 0 = .ok length)
    (hlen : 4 ≤ raw.len) (hzero : length ≠ 0) (hmax : length ≠ 0xFFFFFFFF) :
    parseCIEHeader raw = recordBody raw length >>= parseCIEBody := by
  unfold parseCIEHeader
  rw [if_neg (Nat.not_lt.mpr hlen), hread]
  show (if length = 0xFFFFFFFF then _ else if length = 0 then _ else _) = _
  rw [if_neg hmax, if_neg hzero]

/-- The augmentation data of a CIE ends inside the record; where it does not but the section
goes on, something in it is refused. -/
def CIEHeader.InRange (h : CIEHeader) : Prop :=
  startsWithZ h.cie.augmentation → ∀ augLen pos, uleb128At h.body h.pos = .ok (augLen, pos) →
    pos ≤ afterAugmentation pos augLen ∧ afterAugmentation pos augLen ≤ h.body.block.length ∧
      ∀ augData c, h.body.sub pos (afterAugmentation pos augLen) = (.ok augData : Go _) →
        h.cie.parseAugmentationData h.cie.augmentation.tail augData = .ok c → afterAugmentation pos augLen ≤ h.body.len

theorem parseAugmentationFrom_returns (data : Slice UInt8) (chars : List UInt8) (pos : Int) (c : CIE)
    (h₀ : 0 ≤ pos) : (parseAugmentationFrom data chars pos c).Returns := by
  induction chars generalizing pos c with
  | nil => trivial
  | cons ch chars ih =>
    refine .ite (fun _ => ?_) fun _ => ?_
    · refine .ite (fun _ => trivial) fun hlt => ?_
      exact (Slice.index_returns h₀ (by omega)).bind fun enc _ => ih _ _ (by omega)
    refine .ite (fun _ => ih _ _ h₀) fun _ => ?_
    refine .ite (fun _ => ?_) fun _ => ?_
    · refine .ite (fun _ => trivial) fun hlt => ?_
      refine (Slice.index_returns h₀ (by omega)).bind fun enc _ => ?_
      refine (Slice.suffix_ensures (by omega) (by omega)).returns.bind fun rest _ => ?_
      exact (consumes_decodeEHPointer rest enc 0 0).returns.bind fun r _ => ih _ _ (by omega)
    refine .ite (fun _ => ?_) fun _ => ?_
    · exact .ite (fun _ => trivial) fun _ => ih _ _ (by omega)
    exact .ite (fun _ => ih _ _ h₀) fun _ => trivial

theorem CIEHeader.finish_returns_iff {h : CIEHeader} (h₀ : 0 ≤ h.pos) (hle : h.pos ≤ h.body.len) :
    h.finish.Returns ↔ h.InRange := by
  unfold CIEHeader.finish
  by_cases hz : startsWithZ h.cie.augmentation
  · rw [if_pos hz]
    constructor
    · intro hret _ augLen pos hlen
      obtain ⟨-, hrest⟩ := returns_bind_iff.mp hret
      obtain ⟨hsub, hrest⟩ := returns_bind_iff.mp (hrest _ hlen)
      obtain ⟨-, hfirst, hcap⟩ := Slice.sub_returns_iff.mp hsub
      refine ⟨hfirst, hcap, ?_⟩
      intro augData c hdata hparse
      obtain ⟨-, hrest⟩ := returns_bind_iff.mp (hrest _ hdata)
      obtain ⟨hsuffix, -⟩ := returns_bind_iff.mp (hrest _ hparse)
      exact (Slice.suffix_returns_iff.mp hsuffix).2
    · intro hin
      refine (Moves.uleb128At h₀ hle).returns.bind ?_
      rintro ⟨augLen, pos⟩ hlen
      obtain ⟨hfirst, hcap, hlast⟩ := hin hz augLen pos hlen
      have hpos : 0 ≤ pos := le_trans h₀ ((Moves.uleb128At h₀ hle).of_eq hlen).1
      refine (Slice.sub_returns_iff.mpr ⟨hpos, hfirst, hcap⟩).bind fun augData hdata => ?_
      refine (parseAugmentationFrom_returns _ _ _ _ (le_refl _)).bind fun c hparse => ?_
      have hend := hlast augData c hdata hparse
      exact (Slice.suffix_returns_iff.mpr ⟨le_trans hpos hfirst, hend⟩).bind fun _ _ => trivial
  · rw [if_neg hz]
    refine iff_of_true ?_ fun hz' => absurd hz' hz
    refine .ite (fun _ => ?_) fun _ => ?_
    · exact (Slice.suffix_returns_iff.mpr ⟨h₀, hle⟩).bind fun _ _ => trivial
    · exact .ite (fun _ => trivial) fun _ => trivial

/-- What a CIE record is in range means: its length does not overflow, and neither does the
length of its augmentation data. -/
structure CIEInRange (raw : Slice UInt8) (length : Nat) : Prop where
  length_lt : 4 + length < 2 ^ 32
  augmentation : ∀ h, parseCIEHeader raw = .ok h → h.InRange

theorem parseCIE_returns_iff {raw : Slice UInt8} {length : Nat} (hread : uint32At raw 0 = .ok length)
    (hlen : raw.len = 4 + length) (hzero : length ≠ 0) (hmax : length ≠ 0xFFFFFFFF) :
    (parseCIE raw).Returns ↔ CIEInRange raw length := by
  have hcap := raw.len_le
  have heq := parseCIEHeader_eq hread (by omega) hzero hmax
  have hbody := recordBody_returns_iff (uint32At_lt hread) (le_of_eq_of_le hlen.symm hcap)
  have hhead : ∀ {h}, parseCIEHeader raw = .ok h → 0 ≤ h.pos ∧ h.pos ≤ (h.body.len : Int) := by
    intro h hh
    rw [heq] at hh
    obtain ⟨body, -, hb⟩ := bind_eq_ok.mp hh
    obtain ⟨rfl, hpos, hle⟩ := (parseCIEBody_ensures body).of_eq hb
    exact ⟨hpos, hle⟩
  unfold parseCIE
  rw [returns_bind_iff]
  constructor
  · rintro ⟨hret, hrest⟩
    rw [heq] at hret
    refine ⟨hbody.mp (returns_bind_iff.mp hret).1, ?_⟩
    intro h hh
    exact (CIEHeader.finish_returns_iff (hhead hh).1 (hhead hh).2).mp (hrest h hh)
  · rintro ⟨hlt, haug⟩
    refine ⟨?_, ?_⟩
    · rw [heq]
      exact (hbody.mpr hlt).bind fun body _ => (parseCIEBody_ensures body).returns
    · intro h hh
      exact (CIEHeader.finish_returns_iff (hhead hh).1 (hhead hh).2).mpr (haug h hh)

/-! ## FDEs -/

theorem parseFDEBody_ensures {body : Slice UInt8} (hlen : 4 ≤ body.len) (filePos : UInt64) (c : CIE) :
    (parseFDEBody body filePos c).Ensures fun h => h.body = body ∧ 0 ≤ h.pos ∧ h.pos ≤ (body.len : Int) := by
  refine Outcome.Ensures.bind (Slice.suffix_ensures (by decide) (by omega)) ?_
  rintro rest ⟨hrest, -⟩
  refine Outcome.Ensures.bind (consumes_decodeEHPointer rest c.fdePointerEnc (filePos + 8) 0) ?_
  rintro ⟨initLoc, n⟩ hn
  dsimp only at hn
  refine Outcome.Ensures.bind (Moves.pointerAt (c.fdePointerEnc &&& 0x0f) (by omega) (by omega)) ?_
  rintro ⟨addrRange, pos⟩ ⟨hle, hpos⟩
  dsimp only at hle
  have hpos₀ : 0 ≤ pos := by omega
  exact ⟨rfl, hpos₀, hpos⟩

theorem parseFDEHeader_eq {raw : Slice UInt8} {length : Nat} (hread : uint32At raw 0 = .ok length)
    (hlen : 8 ≤ raw.len) (hzero : length ≠ 0) (hmax : length ≠ 0xFFFFFFFF) (filePos : UInt64) (c : CIE) :
    parseFDEHeader raw filePos c = recordBody raw length >>= fun body => parseFDEBody body filePos c := by
  unfold parseFDEHeader
  rw [if_neg (Nat.not_lt.mpr hlen), hread]
  show (if length = 0xFFFFFFFF ∨ length = 0 then _ else _) = _
  rw [if_neg (not_or.mpr ⟨hmax, hzero⟩)]

def FDEHeader.InRange (h : FDEHeader) (c : CIE) : Prop :=
  startsWithZ c.augmentation → ∀ augLen pos, uleb128At h.body h.pos = .ok (augLen, pos) →
    0 ≤ afterAugmentation pos augLen ∧ afterAugmentation pos augLen ≤ h.body.len

theorem FDEHeader.finish_returns_iff {h : FDEHeader} {c : CIE} (h₀ : 0 ≤ h.pos) (hle : h.pos ≤ h.body.len) :
    (h.finish c).Returns ↔ h.InRange c := by
  unfold FDEHeader.finish
  by_cases hz : startsWithZ c.augmentation
  · rw [if_pos hz]
    constructor
    · intro hret _ augLen pos hlen
      obtain ⟨-, hrest⟩ := returns_bind_iff.mp hret
      obtain ⟨-, hrest⟩ := returns_bind_iff.mp (hrest _ hlen)
      obtain ⟨hsuffix, -⟩ := returns_bind_iff.mp (hrest _ rfl)
      exact Slice.suffix_returns_iff.mp hsuffix
    · intro hin
      refine (Moves.uleb128At h₀ hle).returns.bind ?_
      rintro ⟨augLen, pos⟩ hlen
      exact (Slice.suffix_returns_iff.mpr (hin hz augLen pos hlen)).bind fun _ _ => trivial
  · rw [if_neg hz]
    refine iff_of_true ?_ fun hz' => absurd hz' hz
    exact (Slice.suffix_returns_iff.mpr ⟨h₀, hle⟩).bind fun _ _ => trivial

structure FDEInRange (raw : Slice UInt8) (filePos : UInt64) (c : CIE) (length : Nat) : Prop where
  length_lt : 4 + length < 2 ^ 32
  augmentation : ∀ h, parseFDEHeader raw filePos c = .ok h → h.InRange c

theorem parseFDE_returns_iff {raw : Slice UInt8} {length : Nat} (hread : uint32At raw 0 = .ok length)
    (hlen : raw.len = 4 + length) (hzero : length ≠ 0) (hmax : length ≠ 0xFFFFFFFF) (filePos : UInt64)
    (c : CIE) : (parseFDE raw filePos c).Returns ↔ FDEInRange raw filePos c length := by
  have hcap := raw.len_le
  by_cases hshort : raw.len < 8
  · -- refused before anything else is read
    have heq : parseFDEHeader raw filePos c = .error .truncated := if_pos hshort
    unfold parseFDE
    rw [heq]
    refine iff_of_true trivial ⟨by omega, ?_⟩
    intro h hh
    rw [heq] at hh
    cases hh
  · have heq := parseFDEHeader_eq hread (by omega) hzero hmax filePos c
    have hbody := recordBody_returns_iff (uint32At_lt hread) (le_of_eq_of_le hlen.symm hcap)
    have hspec : ∀ {body}, 4 + length < 2 ^ 32 → recordBody raw length = .ok body →
        (parseFDEBody body filePos c).Ensures fun h =>
          h.body = body ∧ 0 ≤ h.pos ∧ h.pos ≤ (body.len : Int) := by
      intro body hlt hb
      have hlen := (recordBody_len hlt hb).1
      exact parseFDEBody_ensures (by omega) filePos c
    have hhead : 4 + length < 2 ^ 32 → ∀ {h}, parseFDEHeader raw filePos c = .ok h →
        0 ≤ h.pos ∧ h.pos ≤ (h.body.len : Int) := by
      intro hlt h hh
      rw [heq] at hh
      obtain ⟨body, hb, hbh⟩ := bind_eq_ok.mp hh
      obtain ⟨rfl, hpos, hle⟩ := (hspec hlt hb).of_eq hbh
      exact ⟨hpos, hle⟩
    unfold parseFDE
    rw [returns_bind_iff]
    constructor
    · rintro ⟨hret, hrest⟩
      rw [heq] at hret
      have hlt := hbody.mp (returns_bind_iff.mp hret).1
      refine ⟨hlt, ?_⟩
      intro h hh
      exact (FDEHeader.finish_returns_iff (hhead hlt hh).1 (hhead hlt hh).2).mp (hrest h hh)
    · rintro ⟨hlt, haug⟩
      refine ⟨?_, ?_⟩
      · rw [heq]
        exact (hbody.mpr hlt).bind fun body hb => (hspec hlt hb).returns
      · intro h hh
        exact (FDEHeader.finish_returns_iff (hhead hlt hh).1 (hhead hlt hh).2).mpr (haug h hh)

/-! ## Programs are no longer than the section -/

theorem suffix_block {s t : Slice UInt8} (h : s.suffix lo = (.ok t : Go _)) : t.len ≤ s.block.length := by
  have := Slice.sub_eq_ok h
  have := s.len_le
  omega

theorem parseCIE_len {raw : Slice UInt8} {c : CIE} (h : parseCIE raw = .ok c) :
    c.initialInstructions.len ≤ raw.block.length := by
  obtain ⟨hd, hhead, hfinish⟩ := bind_eq_ok.mp h
  have hbody : hd.body.block.length ≤ raw.block.length := by
    unfold parseCIEHeader at hhead
    split at hhead
    · cases hhead
    · obtain ⟨length, -, hrest⟩ := bind_eq_ok.mp hhead
      split at hrest
      · cases hrest
      · split at hrest
        · cases hrest
        · obtain ⟨body, hb, hparse⟩ := bind_eq_ok.mp hrest
          obtain ⟨rfl, -⟩ := (parseCIEBody_ensures body).of_eq hparse
          have := Slice.sub_eq_ok hb
          omega
  refine le_trans ?_ hbody
  unfold CIEHeader.finish at hfinish
  split at hfinish
  · obtain ⟨⟨augLen, pos⟩, -, hrest⟩ := bind_eq_ok.mp hfinish
    obtain ⟨augData, -, hrest⟩ := bind_eq_ok.mp hrest
    obtain ⟨c', -, hrest⟩ := bind_eq_ok.mp hrest
    obtain ⟨instructions, hs, heq⟩ := bind_eq_ok.mp hrest
    cases heq
    exact suffix_block hs
  · split at hfinish
    · obtain ⟨instructions, hs, heq⟩ := bind_eq_ok.mp hfinish
      cases heq
      exact suffix_block hs
    · split at hfinish
      · cases hfinish
      · cases hfinish

theorem parseFDE_len {raw : Slice UInt8} {filePos : UInt64} {c : CIE} {f : FDE}
    (h : parseFDE raw filePos c = .ok f) : f.cie = c ∧ f.instructions.len ≤ raw.block.length := by
  obtain ⟨hd, hhead, hfinish⟩ := bind_eq_ok.mp h
  have hbody : hd.body.block.length ≤ raw.block.length := by
    unfold parseFDEHeader at hhead
    split at hhead
    · cases hhead
    · obtain ⟨length, -, hrest⟩ := bind_eq_ok.mp hhead
      split at hrest
      · cases hrest
      · obtain ⟨body, hb, hparse⟩ := bind_eq_ok.mp hrest
        obtain ⟨rest, -, hparse⟩ := bind_eq_ok.mp hparse
        obtain ⟨⟨initLoc, n⟩, -, hparse⟩ := bind_eq_ok.mp hparse
        obtain ⟨⟨addrRange, pos⟩, -, heq⟩ := bind_eq_ok.mp hparse
        cases heq
        have := Slice.sub_eq_ok hb
        show body.block.length ≤ _
        omega
  have hlast : ∀ {pos : Int}, (hd.body.suffix pos >>= fun instructions =>
      pure { cie := c, initialLocation := hd.initialLocation, addressRange := hd.addressRange,
             instructions := instructions }) = (.ok f : Go FDE) →
      f.cie = c ∧ f.instructions.len ≤ raw.block.length := by
    intro pos hpos
    obtain ⟨instructions, hs, heq⟩ := bind_eq_ok.mp hpos
    cases heq
    exact ⟨rfl, le_trans (suffix_block hs) hbody⟩
  unfold FDEHeader.finish at hfinish
  split at hfinish
  · obtain ⟨⟨augLen, pos⟩, -, hrest⟩ := bind_eq_ok.mp hfinish
    exact hlast hrest
  · exact hlast hfinish

/-! ## The walk -/

structure RecordAt (data : Slice UInt8) (pos length : Nat) : Prop where
  fits : pos + 4 ≤ data.len
  read : uint32At data pos = .ok length
  ne_zero : length ≠ 0
  ne_max : length ≠ 0xFFFFFFFF
  end_le : pos + 4 + length ≤ data.len

/-- What the record that the walk has come to is in range means: there is a second word, and the
lengths in the record stay inside it. -/
structure Walk.InRange (data : Slice UInt8) (sectionPos : UInt64) (w : Walk) (length : Nat) : Prop where
  word : w.pos + 8 ≤ data.block.length
  cie : ∀ raw, uint32At data (w.pos + 4) = .ok 0 →
    data.sub w.pos (w.pos + 4 + length : Nat) = (.ok raw : Go _) → CIEInRange raw length
  fde : ∀ raw word c, uint32At data (w.pos + 4) = .ok word → word ≠ 0 →
    data.sub w.pos (w.pos + 4 + length : Nat) = (.ok raw : Go _) →
      w.cies.lookup (UInt64.ofNat w.pos + 4 - UInt64.ofNat word) = some c →
        FDEInRange raw (sectionPos + UInt64.ofNat w.pos) c length

/-- The record that the walk has come to is the FDE `f`. -/
def Walk.IsFDE (data : Slice UInt8) (sectionPos : UInt64) (w : Walk) (length : Nat) (f : FDE) : Prop :=
  ∃ raw word c, uint32At data (w.pos + 4) = .ok word ∧ word ≠ 0 ∧
    data.sub w.pos (w.pos + 4 + length : Nat) = (.ok raw : Go _) ∧
      w.cies.lookup (UInt64.ofNat w.pos + 4 - UInt64.ofNat word) = some c ∧
        parseFDE raw (sectionPos + UInt64.ofNat w.pos) c = .ok f

section Walk

variable {fuel : Nat} {data : Slice UInt8} {sectionPos : UInt64} {arch : ArchInfo} {w w' : Walk} {length : Nat}

theorem RecordAt.raw (h : RecordAt data w.pos length) {raw : Slice UInt8}
    (hraw : data.sub w.pos (w.pos + 4 + length : Nat) = (.ok raw : Go _)) :
    raw.len = 4 + length ∧ uint32At raw 0 = .ok length ∧ raw.block.length ≤ data.block.length := by
  have hsub := Slice.sub_eq_ok hraw
  refine ⟨by omega, ?_, by omega⟩
  rw [uint32At_sub hraw]
  exact h.read

theorem walkStep_of_record (h : RecordAt data w.pos length) : walkStep fuel data sectionPos arch w =
      walkRecord fuel data sectionPos arch w (w.pos + 4 + length) >>= fun w => pure (some w) := by
  unfold walkStep
  rw [if_pos h.fits, h.read]
  show (if length = 0 then _ else if length = 0xFFFFFFFF then _ else
    if w.pos + 4 + length > data.len then _ else _) = _
  rw [if_neg h.ne_zero, if_neg h.ne_max, if_neg (Nat.not_lt.mpr h.end_le)]

theorem walkStep_of_none (h : ∀ length, ¬RecordAt data w.pos length) :
    (walkStep fuel data sectionPos arch w).Ensures fun next => next = none := by
  have hcap := data.len_le
  refine .ite (fun hfits => ?_) fun _ => rfl
  refine Outcome.Ensures.bind (Q := fun n => uint32At data w.pos = .ok n) ?_ ?_
  · exact .of_returns (uint32At_returns_iff.mpr (by omega)) fun _ hn => hn
  · intro length hread
    refine .ite (fun _ => rfl) fun hzero => ?_
    refine .ite (fun _ => trivial) fun hmax => ?_
    refine .ite (fun _ => trivial) fun hend => ?_
    exact (h length ⟨hfits, hread, hzero, hmax, Nat.not_lt.mp hend⟩).elim

theorem mem_of_lookup {l : List (UInt64 × CIE)} {k : UInt64} {c : CIE} (h : l.lookup k = some c) : (k, c) ∈ l := by
  obtain ⟨l₁, l₂, rfl, -⟩ := List.lookup_eq_some_iff.mp h
  simp

theorem walkRecord_returns_iff (h : RecordAt data w.pos length)
    (hfwd : ∀ f, w.IsFDE data sectionPos length f → f.Forward arch)
    (hsmall : ∀ p ∈ w.cies, p.2.initialInstructions.len ≤ fuel) (hfuel : data.block.length ≤ fuel) :
    (walkRecord fuel data sectionPos arch w (w.pos + 4 + length)).Returns ↔ w.InRange data sectionPos length := by
  have hcap := data.len_le
  have hend := h.end_le
  unfold walkRecord
  constructor
  · intro hret
    obtain ⟨hword, hrest⟩ := returns_bind_iff.mp hret
    refine ⟨by have := uint32At_returns_iff.mp hword; omega, ?_, ?_⟩
    · intro raw hzero hraw
      obtain ⟨hlen, hread, -⟩ := h.raw hraw
      obtain ⟨-, hrest⟩ := returns_bind_iff.mp (hrest 0 hzero)
      have hcie := (returns_bind_iff.mp (hrest raw hraw)).1
      exact (parseCIE_returns_iff hread hlen h.ne_zero h.ne_max).mp (returns_mapError.mp hcie)
    · intro raw word c hword hne hraw hc
      obtain ⟨hlen, hread, -⟩ := h.raw hraw
      obtain ⟨-, hrest⟩ := returns_bind_iff.mp (hrest word hword)
      have hraw' := hrest raw hraw
      rw [if_neg hne] at hraw'
      dsimp only at hraw'
      rw [hc] at hraw'
      have hfde := (returns_bind_iff.mp hraw').1
      exact (parseFDE_returns_iff hread hlen h.ne_zero h.ne_max _ c).mp (returns_mapError.mp hfde)
  · intro hin
    have hword := hin.word
    refine Outcome.Returns.bind (uint32At_returns_iff.mpr (by omega)) fun word hword => ?_
    refine Outcome.Returns.bind (Slice.sub_returns_iff.mpr (by omega)) fun raw hraw => ?_
    obtain ⟨hlen, hread, hblock⟩ := h.raw hraw
    refine .ite (fun hzero => ?_) fun hne => ?_
    · subst hzero
      have hcie := (parseCIE_returns_iff hread hlen h.ne_zero h.ne_max).mpr (hin.cie raw hword hraw)
      exact (returns_mapError.mpr hcie).bind fun _ _ => trivial
    · dsimp only
      split
      · trivial
      · next c hc =>
        have hfde := (parseFDE_returns_iff hread hlen h.ne_zero h.ne_max _ c).mpr (hin.fde raw word c hword hne hraw hc)
        refine (returns_mapError.mpr hfde).bind fun f hf => ?_
        have hf' := mapError_eq_ok.mp hf
        obtain ⟨hcie, hinstr⟩ := parseFDE_len hf'
        have hcie' : f.cie.initialInstructions.len ≤ fuel := hcie ▸ hsmall _ (mem_of_lookup hc)
        have hforward := hfwd f ⟨raw, word, c, hword, hne, hraw, hc, hf'⟩
        exact (compileFDE_returns hforward hcie' (by omega)).bind fun _ _ => trivial

/-- One turn of the walk: where it goes, and that the programs it has come across are no longer
than the section. -/
theorem walkStep_next (h : walkStep fuel data sectionPos arch w = .ok (some w')) :
    (∃ length, RecordAt data w.pos length ∧ w'.pos = w.pos + 4 + length) ∧
      ∀ p ∈ w'.cies, p ∈ w.cies ∨ p.2.initialInstructions.len ≤ data.block.length := by
  by_cases hrec : ∃ length, RecordAt data w.pos length
  · obtain ⟨length, hrec⟩ := hrec
    rw [walkStep_of_record hrec] at h
    obtain ⟨w₁, hw₁, heq⟩ := bind_eq_ok.mp h
    cases heq
    obtain ⟨word, -, hrest⟩ := bind_eq_ok.mp hw₁
    obtain ⟨raw, hraw, hrest⟩ := bind_eq_ok.mp hrest
    split at hrest
    · obtain ⟨c, hc, heq⟩ := bind_eq_ok.mp hrest
      cases heq
      refine ⟨⟨length, hrec, rfl⟩, ?_⟩
      intro p hp
      obtain rfl | hp := List.mem_cons.mp hp
      · exact .inr (le_trans (parseCIE_len (mapError_eq_ok.mp hc)) (hrec.raw hraw).2.2)
      · exact .inl hp
    · dsimp only at hrest
      split at hrest
      · cases hrest
      · obtain ⟨f, -, hrest⟩ := bind_eq_ok.mp hrest
        obtain ⟨entries, -, heq⟩ := bind_eq_ok.mp hrest
        cases heq
        exact ⟨⟨length, hrec, rfl⟩, fun _ hp => .inl hp⟩
  · cases (walkStep_of_none (not_exists.mp hrec)).of_eq h

theorem compileFDE_upto {n m : Nat} (h : n ≤ m) (f : FDE) : Outcome.Upto (compileFDE n arch f) (compileFDE m arch f) :=
  (interpret_upto h _ _ _ _ _).bind fun _ => .refl _

theorem walkStep_upto {n m : Nat} (h : n ≤ m) (w : Walk) :
    Outcome.Upto (walkStep n data sectionPos arch w) (walkStep m data sectionPos arch w) := by
  refine .ite (.bind (.refl _) fun length => ?_) (.refl _)
  refine .ite (.refl _) (.ite (.refl _) (.ite (.refl _) (.bind ?_ fun _ => .refl _)))
  refine .bind (.refl _) fun word => .bind (.refl _) fun raw => .ite (.refl _) ?_
  dsimp only
  split
  · exact .refl _
  · exact .bind (.refl _) fun f => .bind (compileFDE_upto h f) fun _ => .refl _

theorem walkFrom_upto {n m k l : Nat} (h : n ≤ m) (h' : k ≤ l) (w : Walk) :
    Outcome.Upto (walkFrom n data sectionPos arch k w) (walkFrom m data sectionPos arch l w) := by
  induction k generalizing l w with
  | zero => exact .inl rfl
  | succ k ih =>
    obtain ⟨l, rfl⟩ : ∃ j, l = j + 1 := ⟨l - 1, by omega⟩
    refine .bind (walkStep_upto h w) ?_
    intro next
    cases next with
    | none => exact .refl _
    | some w' => exact ih (by omega) w'

end Walk

section Survival

variable (data : Slice UInt8) (sectionPos : UInt64) (arch : ArchInfo)

def WalkStep (w w' : Walk) : Prop := ∃ fuel, walkStep fuel data sectionPos arch w = .ok (some w')

/-- Every block that the programs come to ends at an `int`, from a state of the walk on. -/
def ForwardFrom (w : Walk) : Prop :=
  ∀ w', ReflTransGen (WalkStep data sectionPos arch) w w' → ∀ length, RecordAt data w'.pos length →
    ∀ f, w'.IsFDE data sectionPos length f → f.Forward arch

/-- Every record that the walk comes to is in range, from a state of the walk on. -/
def InRangeFrom (w : Walk) : Prop :=
  ∀ w', ReflTransGen (WalkStep data sectionPos arch) w w' → ∀ length, RecordAt data w'.pos length →
    w'.InRange data sectionPos length

end Survival

section Returns

variable {fuel : Nat} {data : Slice UInt8} {sectionPos : UInt64} {arch : ArchInfo} {w : Walk}

theorem walkStep_returns_iff (hfwd : ForwardFrom data sectionPos arch w)
    (hsmall : ∀ p ∈ w.cies, p.2.initialInstructions.len ≤ fuel) (hfuel : data.block.length ≤ fuel) :
    (walkStep fuel data sectionPos arch w).Returns ↔
      ∀ length, RecordAt data w.pos length → w.InRange data sectionPos length := by
  by_cases hrec : ∃ length, RecordAt data w.pos length
  · obtain ⟨length, hrec⟩ := hrec
    have hiff := walkRecord_returns_iff hrec (hfwd w .refl length hrec) hsmall hfuel
    rw [walkStep_of_record hrec]
    constructor
    · intro hret length' hrec'
      obtain rfl : length' = length := Outcome.ok.inj (hrec'.read.symm.trans hrec.read)
      exact hiff.mp (returns_bind_iff.mp hret).1
    · intro hin
      exact (hiff.mpr (hin length hrec)).bind fun _ _ => trivial
  · have hnone := not_exists.mp hrec
    exact iff_of_true (walkStep_of_none hnone).returns fun length h => absurd h (hnone length)

theorem walkFrom_returns_iff {n : Nat} (hn : data.len < w.pos + n) (hpos : w.pos ≤ data.len)
    (hfwd : ForwardFrom data sectionPos arch w)
    (hsmall : ∀ p ∈ w.cies, p.2.initialInstructions.len ≤ fuel) (hfuel : data.block.length ≤ fuel) :
    (walkFrom fuel data sectionPos arch n w).Returns ↔ InRangeFrom data sectionPos arch w := by
  induction n generalizing w with
  | zero => omega
  | succ n ih =>
    have hstep := walkStep_returns_iff hfwd hsmall hfuel
    -- what the rest of the walk is, given the next state
    have hrest : ∀ w', walkStep fuel data sectionPos arch w = .ok (some w') →
        ((walkFrom fuel data sectionPos arch n w').Returns ↔ InRangeFrom data sectionPos arch w') := by
      intro w' hw'
      obtain ⟨⟨length, hrec, hnext⟩, hcies⟩ := walkStep_next hw'
      have hend := hrec.end_le
      refine ih (by omega) (by omega) (fun w'' hw'' => hfwd w'' (.head ⟨fuel, hw'⟩ hw'')) ?_
      intro p hp
      exact (hcies p hp).elim (hsmall p) fun h => le_trans h hfuel
    constructor
    · intro hret w' hw'
      obtain ⟨hret₁, hret₂⟩ := returns_bind_iff.mp hret
      obtain rfl | ⟨w₁, ⟨fuel', hw₁⟩, hreach⟩ := ReflTransGen.cases_head hw'
      · exact hstep.mp hret₁
      · have hsame : walkStep fuel data sectionPos arch w = .ok (some w₁) := by
          obtain hle | hle := Nat.le_total fuel fuel'
          · exact ((walkStep_upto hle w).eq_of_returns hret₁).trans hw₁
          · exact ((walkStep_upto hle w).eq_of_returns (hw₁ ▸ trivial)).symm.trans hw₁
        exact (hrest w₁ hsame).mp (hret₂ _ hsame) w' hreach
    · intro hin
      refine Outcome.Returns.bind (hstep.mpr (hin w .refl)) ?_
      intro next hnext
      cases next with
      | none => trivial
      | some w₁ => exact (hrest w₁ hnext).mpr fun w' hw' => hin w' (.head ⟨fuel, hnext⟩ hw')

end Returns

/-- Where no block sends the interpreter backwards, the compiler returns exactly on the sections
all of whose records, as far as it comes, are in range. -/
theorem survives_iff (data : Slice UInt8) (sectionPos : UInt64) (arch : ArchInfo)
    (hfwd : ForwardFrom data sectionPos arch {}) :
    (∃ fuel, (compileSection fuel data sectionPos arch).Returns) ↔ InRangeFrom data sectionPos arch {} := by
  have hcap := data.len_le
  have hiff : ∀ fuel, data.block.length < fuel →
      ((compileSection fuel data sectionPos arch).Returns ↔ InRangeFrom data sectionPos arch {}) := by
    intro fuel hfuel
    exact walkFrom_returns_iff (by show data.len < 0 + fuel; omega) (Nat.zero_le _) hfwd nofun (le_of_lt hfuel)
  constructor
  · rintro ⟨fuel, hret⟩
    have hle : fuel ≤ fuel + data.block.length + 1 := by omega
    have heq := (walkFrom_upto hle hle {}).eq_of_returns hret
    refine (hiff (fuel + data.block.length + 1) (by omega)).mp ?_
    unfold compileSection
    rw [← heq]
    exact hret
  · intro hin
    exact ⟨data.block.length + 1, (hiff _ (Nat.lt_succ_self _)).mpr hin⟩

/-- A CIE, an FDE with the prologue of a function, and the end marker. -/
def ordinarySection : Slice UInt8 :=
  .ofList [0x14, 0, 0, 0, 0, 0, 0, 0, 1, 0x7a, 0x52, 0, 1, 0x78, 0x10, 1, 0x1b, 0x0c, 0x07, 0x08, 0x90, 0x01, 0, 0,
      0x14, 0, 0, 0, 0x1c, 0, 0, 0, 0xe0, 0x0f, 0, 0, 0x10, 0, 0, 0, 0, 0x41, 0x0e, 0x10, 0x86, 0x02, 0x43, 0,
      0, 0, 0, 0] (by decide)

def readable (f : FDE) : Bool :=
  (instructionsFrom f.cie.fdePointerEnc f.cie.initialInstructions 16 0).isSome &&
    (instructionsFrom f.cie.fdePointerEnc f.instructions 16 0).isSome

theorem forward_of_readable {arch : ArchInfo} {f : FDE} (h : readable f = true) : f.Forward arch := by
  obtain ⟨hcie, hfde⟩ := (Bool.and_eq_true _ _).mp h
  obtain ⟨is₀, his₀⟩ := Option.isSome_iff_exists.mp hcie
  obtain ⟨is, his⟩ := Option.isSome_iff_exists.mp hfde
  exact .of_readsAs (readsAs_of_instructionsFrom his₀) (readsAs_of_instructionsFrom his)

/-- The walk has come past the CIE of `ordinarySection`, and its FDE is readable. -/
def pastCIE (w : Walk) : Bool :=
  decide (w.pos = 24) && (w.cies.lookup 0).all fun c =>
    ((ordinarySection.sub 24 48 : Go _) >>= fun raw => parseFDE raw 24 c).any readable

theorem record_at_24 {length : Nat} (h : RecordAt ordinarySection 24 length) : length = 20 := by
  have hread : uint32At ordinarySection 24 = .ok 20 := by decide +kernel
  exact Outcome.ok.inj (h.read.symm.trans hread)

theorem no_record_at_48 {length : Nat} : ¬RecordAt ordinarySection 48 length := by
  intro h
  have hread : uint32At ordinarySection 48 = .ok 0 := by decide +kernel
  exact h.ne_zero (Outcome.ok.inj (h.read.symm.trans hread))

theorem ordinarySection_forward : ForwardFrom ordinarySection 0 archX86_64 {} := by
  intro w hw length hrec f hf
  obtain ⟨raw, word, c, hword, hne, hraw, hc, hparse⟩ := hf
  obtain rfl | ⟨w₁, ⟨fuel, hw₁⟩, hreach⟩ := ReflTransGen.cases_head hw
  · have hzero : uint32At ordinarySection 4 = .ok 0 := by decide +kernel
    exact absurd (Outcome.ok.inj (hword.symm.trans hzero)) hne
  · have hafter : walkStep 0 ordinarySection 0 archX86_64 {} = .ok (some w₁) := hw₁
    have hpast : (walkStep 0 ordinarySection 0 archX86_64 {}).any (fun w => w.all pastCIE) = true := by
      decide +kernel
    rw [hafter] at hpast
    obtain ⟨hpos, hfde⟩ := (Bool.and_eq_true _ _).mp (show pastCIE w₁ = true from hpast)
    have hpos : w₁.pos = 24 := of_decide_eq_true hpos
    obtain rfl | ⟨w₂, ⟨fuel₂, hw₂⟩, hreach⟩ := ReflTransGen.cases_head hreach
    · rw [hpos] at hrec hword hraw hc hparse
      obtain rfl := record_at_24 hrec
      have hword' : uint32At ordinarySection (24 + 4) = .ok 28 := by decide +kernel
      obtain rfl : word = 28 := Outcome.ok.inj (hword.symm.trans hword')
      have hall := (Option.all_eq_true _ _).mp hfde c hc
      have hboth : ((ordinarySection.sub 24 48 : Go _) >>= fun raw => parseFDE raw 24 c) = .ok f :=
        bind_eq_ok.mpr ⟨raw, hraw, hparse⟩
      rw [hboth] at hall
      exact forward_of_readable hall
    · obtain ⟨⟨length₂, hrec₂, hnext⟩, -⟩ := walkStep_next hw₂
      rw [hpos] at hrec₂ hnext
      obtain rfl := record_at_24 hrec₂
      obtain rfl | ⟨w₃, ⟨fuel₃, hw₃⟩, -⟩ := ReflTransGen.cases_head hreach
      · rw [hnext] at hrec
        exact (no_record_at_48 hrec).elim
      · obtain ⟨⟨length₃, hrec₃, -⟩, -⟩ := walkStep_next hw₃
        rw [hnext] at hrec₃
        exact (no_record_at_48 hrec₃).elim

theorem survives_ordinarySection :
    ForwardFrom ordinarySection 0 archX86_64 {} ∧ InRangeFrom ordinarySection 0 archX86_64 {} :=
  ⟨ordinarySection_forward,
    (survives_iff ordinarySection 0 archX86_64 ordinarySection_forward).mp ⟨64, by decide +kernel⟩⟩

/-- A program of one instruction: an expression of `2 ^ 64 - 11` bytes. -/
def backToStart : Slice UInt8 :=
  .ofList [0x0f, 0xf5, 0xff, 0xff, 0xff, 0xff, 0xff, 0xff, 0xff, 0xff, 0x01] (by decide)

/-- The length of the expression takes the interpreter back to where it started: without
`Forward` the loop need not end. -/
theorem loop_backToStart (fuel : Nat) (s : Interp) : loop backToStart fuel 0 s = .outOfFuel := by
  have hfetch : fetch s.cie.fdePointerEnc backToStart 0 = .ok (.defCFAExpression 0xfffffffffffffff5, 11) := rfl
  have hback : afterBlock (.defCFAExpression 0xfffffffffffffff5) 11 = 0 := by decide
  induction fuel generalizing s with
  | zero => rfl
  | succ fuel ih =>
    rw [loop, if_pos (by decide), hfetch]
    show loop backToStart fuel (afterBlock (.defCFAExpression 0xfffffffffffffff5) 11) _ = _
    rw [hback]
    exact ih _ rfl

/-- A section of five bytes, whose one record is too short for its second word. -/
theorem short_record_panics :
    ¬∃ fuel, (compileSection fuel (.ofList [1, 0, 0, 0, 0] (by decide)) 0 archX86_64).Returns := by
  rintro ⟨fuel, hret⟩
  cases fuel with
  | zero => exact hret
  | succ fuel => exact hret

end PerfAgent.Unwind
