import Mathlib.Data.Nat.Bitwise
import Mathlib.Data.UInt

/-!
# The reference to `autoTSSkey`

`pyunwind/tssparse.go`: the bodies of `PyGILState_GetThisThreadState` that are known, what is read out of one, and the
address that this comes to.  A body is decoded at fixed positions; its length alone says which shape it must have.
-/

namespace PerfAgent.Pyunwind

inductive FieldEnc where
  | ripDisp32
  | a64AddImm12

inductive AutoTSSKeyRefKind where
  | runtimeOffset
  | absoluteAddress
  | bodyRelative
  | a64PageRelative
deriving DecidableEq

structure FixedRun where
  pos : Nat
  bytes : List UInt8

structure TssShape where
  name : String
  size : Nat
  fixed : List FixedRun
  keyAt : List Nat
  ripEnd : List Nat := []
  enc : FieldEnc := .ripDisp32
  adrpAt : Nat := 0
  keyDelta : Int64 := 0
  kind : AutoTSSKeyRefKind := .runtimeOffset

def a64Executable : TssShape where
  name := "aarch64 non-PIC executable (Ubuntu 24.04 /usr/bin/python3.12)"
  size := 72
  adrpAt := 16
  fixed := [⟨0, [0x3f, 0x23, 0x03, 0xd5]⟩, ⟨4, [0xfd, 0x7b, 0xbe, 0xa9]⟩, ⟨8, [0xfd, 0x03, 0x00, 0x91]⟩,
    ⟨12, [0xf3, 0x0b, 0x00, 0xf9]⟩, ⟨28, [0xc0, 0x00, 0x00, 0x34]⟩, ⟨36, [0xf3, 0x0b, 0x40, 0xf9]⟩,
    ⟨40, [0xfd, 0x7b, 0xc2, 0xa8]⟩, ⟨44, [0xbf, 0x23, 0x03, 0xd5]⟩, ⟨52, [0xf3, 0x0b, 0x40, 0xf9]⟩,
    ⟨56, [0x00, 0x00, 0x80, 0xd2]⟩, ⟨60, [0xfd, 0x7b, 0xc2, 0xa8]⟩, ⟨64, [0xbf, 0x23, 0x03, 0xd5]⟩,
    ⟨68, [0xc0, 0x03, 0x5f, 0xd6]⟩, ⟨20, [0x60]⟩, ⟨23, [0x91]⟩, ⟨32, [0x60]⟩, ⟨35, [0x91]⟩]
  keyAt := [20, 32]
  enc := .a64AddImm12
  kind := .a64PageRelative

def a64Library : TssShape where
  name := "aarch64-gcc-ubuntu-24.04"
  size := 76
  fixed := [⟨0, [0x3f, 0x23, 0x03, 0xd5]⟩, ⟨4, [0xfd, 0x7b, 0xbe, 0xa9]⟩, ⟨8, [0xfd, 0x03, 0x00, 0x91]⟩,
    ⟨12, [0xf3, 0x0b, 0x00, 0xf9]⟩, ⟨32, [0xc0, 0x00, 0x00, 0x34]⟩, ⟨24, [0x60]⟩, ⟨27, [0x91]⟩, ⟨36, [0x60]⟩,
    ⟨39, [0x91]⟩, ⟨40, [0xf3, 0x0b, 0x40, 0xf9]⟩, ⟨44, [0xfd, 0x7b, 0xc2, 0xa8]⟩, ⟨48, [0xbf, 0x23, 0x03, 0xd5]⟩,
    ⟨56, [0xf3, 0x0b, 0x40, 0xf9]⟩, ⟨60, [0x00, 0x00, 0x80, 0xd2]⟩, ⟨64, [0xfd, 0x7b, 0xc2, 0xa8]⟩,
    ⟨68, [0xbf, 0x23, 0x03, 0xd5]⟩, ⟨72, [0xc0, 0x03, 0x5f, 0xd6]⟩]
  keyAt := [24, 36]
  enc := .a64AddImm12

def inlinedIsCreated : TssShape where
  name := "35-byte inlined-tss_is_created (Debian/Fedora)"
  size := 35
  keyAt := [13, 23]
  fixed := [⟨0, [0xf3, 0x0f, 0x1e, 0xfa]⟩, ⟨4, [0x48, 0x8b, 0x05]⟩, ⟨11, [0x83, 0xb8]⟩, ⟨17, [0x00]⟩,
    ⟨18, [0x74, 0x0c]⟩, ⟨20, [0x48, 0x8d, 0xb8]⟩, ⟨27, [0xe9]⟩, ⟨32, [0x31, 0xc0]⟩, ⟨34, [0xc3]⟩]

def calledIsCreated : TssShape where
  name := "44-byte called-tss_is_created (setup-python gcc 13 PGO)"
  size := 44
  keyAt := [15]
  fixed := [⟨0, [0xf3, 0x0f, 0x1e, 0xfa]⟩, ⟨4, [0x48, 0x8b, 0x05]⟩, ⟨11, [0x53]⟩, ⟨12, [0x48, 0x8d, 0x98]⟩,
    ⟨19, [0x48, 0x89, 0xdf]⟩, ⟨22, [0xe8]⟩, ⟨27, [0x85, 0xc0]⟩, ⟨29, [0x74, 0x09]⟩, ⟨31, [0x48, 0x89, 0xdf]⟩,
    ⟨34, [0x5b]⟩, ⟨35, [0xe9]⟩, ⟨40, [0x31, 0xc0]⟩, ⟨42, [0x5b]⟩, ⟨43, [0xc3]⟩]

def framePointer : TssShape where
  name := "64-byte frame-pointer build (Ubuntu 24.04 system python3.12)"
  size := 64
  keyAt := [23]
  fixed := [⟨0, [0xf3, 0x0f, 0x1e, 0xfa]⟩, ⟨4, [0x55]⟩, ⟨5, [0x48, 0x89, 0xe5]⟩, ⟨8, [0x53]⟩,
    ⟨9, [0x48, 0x83, 0xec, 0x08]⟩, ⟨13, [0x48, 0x8b, 0x05]⟩, ⟨20, [0x48, 0x8d, 0x98]⟩, ⟨27, [0x48, 0x89, 0xdf]⟩,
    ⟨30, [0xe8]⟩, ⟨35, [0x85, 0xc0]⟩, ⟨37, [0x74, 0x11]⟩, ⟨39, [0x48, 0x89, 0xdf]⟩, ⟨42, [0x48, 0x8b, 0x5d, 0xf8]⟩,
    ⟨46, [0xc9]⟩, ⟨47, [0xe9]⟩, ⟨52, [0x0f, 0x1f, 0x40, 0x00]⟩, ⟨56, [0x48, 0x8b, 0x5d, 0xf8]⟩,
    ⟨60, [0x31, 0xc0]⟩, ⟨62, [0xc9]⟩, ⟨63, [0xc3]⟩]

def absoluteImmediate : TssShape where
  name := "37-byte non-PIE absolute-immediate (Ubuntu 24.04 /usr/bin/python3.12)"
  size := 37
  keyAt := [6, 27]
  kind := .absoluteAddress
  fixed := [⟨0, [0xf3, 0x0f, 0x1e, 0xfa]⟩, ⟨4, [0x55]⟩, ⟨5, [0xbf]⟩, ⟨10, [0x48, 0x89, 0xe5]⟩, ⟨13, [0xe8]⟩,
    ⟨18, [0x85, 0xc0]⟩, ⟨20, [0x0f, 0x84]⟩, ⟨26, [0xbf]⟩, ⟨31, [0x5d]⟩, ⟨32, [0xe9]⟩]

def clangRIPRelative : TssShape where
  name := "29-byte Clang RIP-relative (python-build-standalone / uv)"
  size := 29
  keyAt := [6, 15]
  ripEnd := [11, 19]
  keyDelta := 4
  kind := .bodyRelative
  fixed := [⟨0, [0x55]⟩, ⟨1, [0x48, 0x89, 0xe5]⟩, ⟨4, [0x83, 0x3d]⟩, ⟨10, [0x00]⟩, ⟨11, [0x74, 0x0c]⟩,
    ⟨13, [0x8b, 0x3d]⟩, ⟨19, [0x5d]⟩, ⟨20, [0xe9]⟩, ⟨25, [0x31, 0xc0]⟩, ⟨27, [0x5d]⟩, ⟨28, [0xc3]⟩]

def tssShapes : List TssShape := [a64Executable, a64Library, inlinedIsCreated, calledIsCreated, framePointer,
  absoluteImmediate, clangRIPRelative]

structure AutoTSSKeyRef where
  value : UInt64
  kind : AutoTSSKeyRefKind
  adrpAt : UInt64 := 0
deriving DecidableEq

/-- What wraps `ErrTSSPatternUnrecognised`. -/
inductive TSSPatternUnrecognised where
  | unknownSize (size : Nat) (sizes : List Nat)
  | byte (name : String) (pos : Nat) (expected got : List UInt8)
  | resolves (name : String) (key : Nat) (distance : Int64) (first : Nat) (expected : Int64)
  | adrpPastEnd (name : String) (off size : Nat)
  | notAdrp (name : String) (off : Nat) (word : UInt32)
deriving DecidableEq

/-! ## Parsing -/

/-- `binary.LittleEndian.Uint32` of the four bytes at `i`. -/
def uint32At (code : List UInt8) (i : Nat) : UInt32 :=
  .ofNat (((code.drop i).take 4).foldr (fun b v => b.toNat + 256 * v) 0)

/-- The page displacement of the ADRP at `off`, or the word there if it is none. -/
def a64AdrpPageDelta (name : String) (code : List UInt8) (off : Nat) : Except TSSPatternUnrecognised UInt64 :=
  if off + 4 > code.length then .error (.adrpPastEnd name off code.length)
  else
    let w := uint32At code off
    if w &&& 0x9F000000 ≠ 0x90000000 then .error (.notAdrp name off w)
    else
      let immlo : UInt32 := (w >>> 29) &&& 0x3
      let immhi : UInt32 := (w >>> 5) &&& 0x7FFFF
      let imm := immlo ||| immhi <<< 2
      let v : Int64 := imm.toUInt64.toInt64
      let v := if imm &&& 0x100000 ≠ 0 then v - 0x200000 else v
      .ok (v <<< 12).toUInt64

namespace TssShape

variable (s : TssShape) (code : List UInt8)

/-- The field of index `i` as a number in the space of the shape. -/
def fold (i : Nat) : UInt64 :=
  let w := uint32At code (s.keyAt.getD i 0)
  match s.enc with
  | .a64AddImm12 =>
    let v := ((w >>> 10) &&& 0xFFF).toUInt64
    if w &&& 0x400000 ≠ 0 then v <<< 12 else v
  | .ripDisp32 =>
    let v := w.toInt32.toInt64.toUInt64
    if s.ripEnd ≠ [] then v + .ofNat (s.ripEnd.getD i 0) else v

def decode : Except TSSPatternUnrecognised AutoTSSKeyRef :=
  let got := fun f : FixedRun => (code.drop f.pos).take f.bytes.length
  match s.fixed.find? fun f => got f ≠ f.bytes with
  | some f => .error (.byte s.name f.pos f.bytes (got f))
  | none =>
    let first := s.fold code 0
    match (List.range' 1 (s.keyAt.length - 1)).find? fun i => s.fold code i ≠ first + s.keyDelta.toUInt64 with
    | some i =>
      .error (.resolves s.name (s.keyAt.getD i 0) (s.fold code i - first).toInt64 (s.keyAt.getD 0 0) s.keyDelta)
    | none =>
      if s.adrpAt ≠ 0 then do
        let page ← a64AdrpPageDelta s.name code s.adrpAt
        return { value := page + first, kind := s.kind, adrpAt := .ofNat s.adrpAt }
      else .ok { value := first, kind := s.kind }

end TssShape

def parseAutoTSSKeyRef (code : List UInt8) : Except TSSPatternUnrecognised AutoTSSKeyRef :=
  match tssShapes.find? (·.size = code.length) with
  | some s => s.decode code
  | none => .error (.unknownSize code.length (tssShapes.map (·.size)))

/-! ## Resolving -/

structure SymbolPlacement where
  runtimeVaddr : UInt64
  runtimeSize : UInt64
  bodyVaddr : UInt64
  bias : UInt64

/-- What wraps `ErrOffsetsImplausible`. -/
inductive OffsetsImplausible where
  | noSize
  | noBody (kind : AutoTSSKeyRefKind)
  | below (addr vaddr : UInt64)
  | outside (off size : UInt64)
deriving DecidableEq

namespace AutoTSSKeyRef

variable (r : AutoTSSKeyRef) (p : SymbolPlacement)

def address : UInt64 :=
  match r.kind with
  | .runtimeOffset => p.runtimeVaddr + r.value
  | .absoluteAddress => r.value
  | .bodyRelative => p.bodyVaddr + r.value
  | .a64PageRelative => ((p.bodyVaddr + r.adrpAt) &&& ~~~0xFFF) + r.value

def needsBody : Bool :=
  match r.kind with
  | .runtimeOffset | .absoluteAddress => false
  | .bodyRelative | .a64PageRelative => true

def resolve : Except OffsetsImplausible UInt64 :=
  if p.runtimeSize = 0 then .error .noSize
  else if r.needsBody ∧ p.bodyVaddr = 0 then .error (.noBody r.kind)
  else
    let addr := r.address p
    if addr < p.runtimeVaddr then .error (.below addr p.runtimeVaddr)
    else
      let off := addr - p.runtimeVaddr
      if off + 8 > p.runtimeSize then .error (.outside off p.runtimeSize) else .ok (addr + p.bias)

end AutoTSSKeyRef

/-! ## What the instructions say -/

/-- The 21 bits of an ADRP, low part first, as a signed number of pages. -/
def adrpPages (w : UInt32) : Int := Int.bmod (w.toNat / 0x20000000 % 4 + 4 * (w.toNat / 0x20 % 0x80000)) 0x200000

def addImmediate (w : UInt32) : Nat :=
  w.toNat / 0x400 % 0x1000 * if w.toNat / 0x400000 % 2 = 1 then 0x1000 else 1

/-- Where the instructions of a body have the reference: the ADRP and the ADD, the ADD, a displacement from the
object, an immediate, or a displacement from the end of its instruction. -/
inductive Operand where
  | page (adrp add : Nat)
  | field (add : Nat)
  | offset (i : Nat)
  | immediate (i : Nat)
  | ripRelative (i ripEnd : Nat)

def operand : Nat → Option Operand
  | 72 => some (.page 16 20)
  | 76 => some (.field 24)
  | 35 => some (.offset 13)
  | 44 => some (.offset 15)
  | 64 => some (.offset 23)
  | 37 => some (.immediate 6)
  | 29 => some (.ripRelative 6 11)
  | _ => none

/-- The address that is referred to, if the immediate is the number `imm`. -/
def Operand.address (imm : UInt32 → Int) (code : List UInt8) (p : SymbolPlacement) : Operand → UInt64
  | page adrp add =>
    .ofInt ((p.bodyVaddr + .ofNat adrp).toNat / 0x1000 * 0x1000 + 0x1000 * adrpPages (uint32At code adrp) +
      addImmediate (uint32At code add))
  | field add => .ofInt (p.runtimeVaddr.toNat + addImmediate (uint32At code add))
  | offset i => .ofInt (p.runtimeVaddr.toNat + (uint32At code i).toInt32.toInt)
  | immediate i => .ofInt (imm (uint32At code i))
  | ripRelative i ripEnd => .ofInt (p.bodyVaddr.toNat + ripEnd + (uint32At code i).toInt32.toInt)

def referenced (code : List UInt8) (p : SymbolPlacement) : UInt64 :=
  (operand code.length).elim 0 (·.address (fun w => w.toNat) code p)

def referencedSigned (code : List UInt8) (p : SymbolPlacement) : UInt64 :=
  (operand code.length).elim 0 (·.address (fun w => w.toInt32.toInt) code p)

theorem toBitVec_ofInt (z : Int) : (UInt64.ofInt z).toBitVec = BitVec.ofInt 64 z := by
  refine BitVec.eq_of_toNat_eq ?_
  rw [BitVec.toNat_ofInt]
  exact Nat.mod_eq_of_lt (by omega)

theorem disp_eq (w : UInt32) : w.toInt32.toInt64.toUInt64 = UInt64.ofInt w.toInt32.toInt := by
  refine UInt64.toBitVec_inj.mp ?_
  rw [toBitVec_ofInt]
  rfl

theorem ofInt_toNat {a : UInt64} {n : Nat} (h : a.toNat = n) : UInt64.ofInt n = a := by
  refine UInt64.toBitVec_inj.mp (BitVec.eq_of_toNat_eq ?_)
  rw [toBitVec_ofInt, BitVec.toNat_ofInt, ← h]
  have := a.toNat_lt
  show _ = a.toNat
  omega

theorem toUInt64_shiftLeft (v : Int64) : (v <<< 12).toUInt64 = v.toUInt64 <<< 12 := rfl

theorem shiftLeft_twelve (a : UInt64) : a <<< 12 = 0x1000 * a := by
  refine UInt64.toNat_inj.mp ?_
  rw [UInt64.toNat_shiftLeft, UInt64.toNat_mul, Nat.shiftLeft_eq, Nat.mul_comm]
  rfl

theorem page_eq (a : UInt64) : a &&& ~~~0xFFF = UInt64.ofInt (a.toNat / 0x1000 * 0x1000 : Nat) := by
  refine (ofInt_toNat ?_).symm
  have hmask : (~~~0xFFF : UInt64).toNat = (2 ^ 52 - 1) <<< 12 := rfl
  have hpage : a.toNat / 0x1000 * 0x1000 = (a.toNat >>> 12) <<< 12 := by
    rw [Nat.shiftLeft_eq, Nat.shiftRight_eq_div_pow]
  rw [UInt64.toNat_and, hmask, hpage]
  refine Nat.eq_of_testBit_eq fun i => ?_
  rw [Nat.testBit_and, Nat.testBit_shiftLeft, Nat.testBit_shiftLeft, Nat.testBit_two_pow_sub_one,
    Nat.testBit_shiftRight]
  by_cases hi : 12 ≤ i
  · rw [Nat.add_sub_cancel' hi]
    by_cases hlt : i - 12 < 52
    · simp [hi, hlt]
    · have hbit : a.toNat.testBit i = false :=
        Nat.testBit_lt_two_pow (a.toNat_lt.trans_le (Nat.pow_le_pow_right (by decide) (by omega)))
      simp [hbit]
  · simp [hi]

theorem and_pow_ne_zero {w b : UInt32} {i : Nat} (hb : b.toNat = 2 ^ i) : w &&& b ≠ 0 ↔ w.toNat / 2 ^ i % 2 = 1 := by
  have hand : (w &&& b).toNat = 2 ^ i * (w.toNat.testBit i).toNat := by
    rw [UInt32.toNat_and, hb, Nat.and_comm, Nat.two_pow_and]
  rw [ne_eq, ← UInt32.toNat_inj, hand, Nat.testBit_eq_decide_div_mod_eq]
  by_cases h : w.toNat / 2 ^ i % 2 = 1 <;> simp [h]

theorem field_eq {w shift mask : UInt32} {i k : Nat} (hshift : shift.toNat % 32 = i) (hmask : mask.toNat = 2 ^ k - 1) :
    (w >>> shift &&& mask).toNat = w.toNat / 2 ^ i % 2 ^ k := by
  rw [UInt32.toNat_and, UInt32.toNat_shiftRight, hshift, hmask, Nat.and_two_pow_sub_one_eq_mod,
    Nat.shiftRight_eq_div_pow]

theorem add_immediate (w : UInt32) :
    (if w &&& 0x400000 ≠ 0 then ((w >>> 10) &&& 0xFFF).toUInt64 <<< 12 else ((w >>> 10) &&& 0xFFF).toUInt64) =
      UInt64.ofInt (addImmediate w) := by
  have himm := ofInt_toNat (a := ((w >>> 10) &&& 0xFFF).toUInt64) (field_eq (i := 10) (k := 12) rfl rfl)
  rw [shiftLeft_twelve, ← himm, addImmediate]
  simp only [and_pow_ne_zero (i := 22) (b := 0x400000) rfl]
  show _ = UInt64.ofInt (_ * if w.toNat / 2 ^ 22 % 2 = 1 then _ else _ : Nat)
  split
  · rw [Nat.mul_comm, Nat.cast_mul, UInt64.ofInt_mul]
    rfl
  · rw [Nat.mul_one]
    rfl

theorem adrp_delta (w : UInt32) :
    let immlo : UInt32 := (w >>> 29) &&& 0x3
    let immhi : UInt32 := (w >>> 5) &&& 0x7FFFF
    let imm := immlo ||| immhi <<< 2
    let v : Int64 := imm.toUInt64.toInt64
    ((if imm &&& 0x100000 ≠ 0 then v - 0x200000 else v) <<< 12).toUInt64 = UInt64.ofInt (0x1000 * adrpPages w) := by
  intro immlo immhi imm v
  have hlo : immlo.toNat = w.toNat / 2 ^ 29 % 2 ^ 2 := field_eq rfl rfl
  have hhi : immhi.toNat = w.toNat / 2 ^ 5 % 2 ^ 19 := field_eq rfl rfl
  have himm : imm.toNat = immlo.toNat + 4 * immhi.toNat := by
    rw [UInt32.toNat_or, UInt32.toNat_shiftLeft]
    show _ ||| immhi.toNat <<< 2 % 2 ^ 32 = _
    rw [Nat.mod_eq_of_lt (by omega), Nat.or_comm, ← Nat.shiftLeft_add_eq_or_of_lt (by omega), Nat.shiftLeft_eq]
    omega
  have hbit : imm &&& 0x100000 ≠ 0 ↔ 0x100000 ≤ imm.toNat := by
    rw [and_pow_ne_zero (i := 20) rfl]
    show imm.toNat / 0x100000 % 2 = 1 ↔ _
    have hlt : imm.toNat < 0x200000 := by omega
    clear hlo hhi himm
    omega
  have hpages : adrpPages w = imm.toNat - if 0x100000 ≤ imm.toNat then 0x200000 else 0 := by
    have hmod : adrpPages w = Int.bmod imm.toNat 0x200000 := by
      rw [himm, hlo, hhi]
      rfl
    rw [hmod, Int.bmod_def]
    split <;> omega
  have hv : UInt64.ofInt imm.toNat = imm.toUInt64 := ofInt_toNat rfl
  rw [hpages]
  simp only [hbit]
  split
  · rw [toUInt64_shiftLeft, Int64.toUInt64_sub, shiftLeft_twelve, UInt64.ofInt_mul, Int.sub_eq_add_neg,
      UInt64.ofInt_add, hv, UInt64.sub_eq_add_neg]
    rfl
  · rw [toUInt64_shiftLeft, shiftLeft_twelve, UInt64.ofInt_mul, Int.sub_zero, hv]
    rfl

/-! ## What is resolved -/

variable {code : List UInt8} {r : AutoTSSKeyRef} {p : SymbolPlacement}

theorem decode_ok {s : TssShape} (h : s.decode code = .ok r) :
    (s.adrpAt = 0 ∧ r = { value := s.fold code 0, kind := s.kind }) ∨ (s.adrpAt ≠ 0 ∧ r =
        { value := UInt64.ofInt (0x1000 * adrpPages (uint32At code s.adrpAt)) + s.fold code 0
          kind := s.kind
          adrpAt := .ofNat s.adrpAt }) := by
  unfold TssShape.decode at h
  dsimp only at h
  split at h
  · cases h
  · split at h
    · cases h
    · split at h
      · next hadrp =>
        refine .inr ⟨hadrp, ?_⟩
        unfold a64AdrpPageDelta at h
        dsimp only at h
        rw [adrp_delta] at h
        split at h
        · cases h
        · split at h
          · cases h
          · cases h
            rfl
      · next hadrp =>
        cases h
        exact .inl ⟨not_not.mp hadrp, rfl⟩

/-- What is checked against the object is the address of the instructions, with a signed absolute operand. -/
theorem address_eq (h : parseAutoTSSKeyRef code = .ok r) (p : SymbolPlacement) :
    r.address p = referencedSigned code p := by
  unfold parseAutoTSSKeyRef at h
  split at h
  swap
  · cases h
  next s hs =>
  have hsize : s.size = code.length := by simpa using List.find?_some hs
  have hshape := List.mem_of_find?_eq_some hs
  have hdisp : ∀ (base : UInt64) (i : Nat),
      UInt64.ofInt (base.toNat + (uint32At code i).toInt32.toInt) = base + (uint32At code i).toInt32.toInt64.toUInt64 :=
    fun base i => by rw [UInt64.ofInt_add, ofInt_toNat rfl, disp_eq]
  rw [referencedSigned, ← hsize]
  simp only [tssShapes, List.mem_cons, List.not_mem_nil, or_false] at hshape
  obtain rfl | rfl | rfl | rfl | rfl | rfl | rfl := hshape
  · obtain ⟨hnone, -⟩ | ⟨-, rfl⟩ := decode_ok h
    · exact absurd hnone (by decide)
    · show (p.bodyVaddr + .ofNat 16 &&& ~~~0xFFF) + (UInt64.ofInt _ + a64Executable.fold code 0) =
        Operand.address (fun w => w.toInt32.toInt) code p (.page 16 20)
      rw [Operand.address, page_eq, ← UInt64.add_assoc, UInt64.ofInt_add, UInt64.ofInt_add, ← add_immediate]
      push_cast
      rfl
  · obtain ⟨-, rfl⟩ | ⟨hadrp, -⟩ := decode_ok h
    · show p.runtimeVaddr + a64Library.fold code 0 = Operand.address (fun w => w.toInt32.toInt) code p (.field 24)
      rw [Operand.address, UInt64.ofInt_add, ofInt_toNat rfl, ← add_immediate]
      rfl
    · exact (hadrp rfl).elim
  · obtain ⟨-, rfl⟩ | ⟨hadrp, -⟩ := decode_ok h
    · exact (hdisp p.runtimeVaddr 13).symm
    · exact (hadrp rfl).elim
  · obtain ⟨-, rfl⟩ | ⟨hadrp, -⟩ := decode_ok h
    · exact (hdisp p.runtimeVaddr 15).symm
    · exact (hadrp rfl).elim
  · obtain ⟨-, rfl⟩ | ⟨hadrp, -⟩ := decode_ok h
    · exact (hdisp p.runtimeVaddr 23).symm
    · exact (hadrp rfl).elim
  · obtain ⟨-, rfl⟩ | ⟨hadrp, -⟩ := decode_ok h
    · exact disp_eq _
    · exact (hadrp rfl).elim
  · obtain ⟨-, rfl⟩ | ⟨hadrp, -⟩ := decode_ok h
    · show p.bodyVaddr + ((uint32At code 6).toInt32.toInt64.toUInt64 + 11) =
        Operand.address (fun w => w.toInt32.toInt) code p (.ripRelative 6 11)
      rw [Operand.address, Int.add_right_comm, UInt64.ofInt_add, hdisp, UInt64.add_assoc]
      rfl
    · exact (hadrp rfl).elim

/-- The eight bytes at `a` lie in the object. -/
def Inside (p : SymbolPlacement) (a : UInt64) : Prop :=
  p.runtimeVaddr.toNat ≤ a.toNat ∧ a.toNat + 8 ≤ p.runtimeVaddr.toNat + p.runtimeSize.toNat

/-- The end of the eight bytes, counted from the object, is past 64 bits and looks small. -/
def Wraps (p : SymbolPlacement) (a : UInt64) : Prop :=
  p.runtimeVaddr.toNat ≤ a.toNat ∧ 2 ^ 64 ≤ a.toNat - p.runtimeVaddr.toNat + 8 ∧
    a.toNat - p.runtimeVaddr.toNat + 8 ≤ 2 ^ 64 + p.runtimeSize.toNat

/-- The address of the instructions is resolved if it lies in the object, and refused otherwise. -/
def Resolved (code : List UInt8) (r : AutoTSSKeyRef) (p : SymbolPlacement) : Prop :=
  (Inside p (referenced code p) → r.resolve p = .ok (referenced code p + p.bias)) ∧
    (¬Inside p (referenced code p) → ∃ err, r.resolve p = .error err)

theorem resolve_eq (hsize : p.runtimeSize ≠ 0) (hbody : p.bodyVaddr ≠ 0) :
    (r.resolve p = .ok (r.address p + p.bias) ∧ (Inside p (r.address p) ∨ Wraps p (r.address p))) ∨
      ((∃ err, r.resolve p = .error err) ∧ ¬Inside p (r.address p) ∧ ¬Wraps p (r.address p)) := by
  unfold AutoTSSKeyRef.resolve
  rw [if_neg hsize, if_neg fun h => hbody h.2]
  dsimp only
  have haddr := (r.address p).toNat_lt
  have hsize' := p.runtimeSize.toNat_lt
  split
  · next hlt =>
    have hlt := UInt64.lt_iff_toNat_lt.mp hlt
    exact .inr ⟨⟨_, rfl⟩, fun h => by have := h.1; omega, fun h => by have := h.1; omega⟩
  · next hge =>
    have hle := UInt64.le_iff_toNat_le.mp (UInt64.not_lt.mp hge)
    have hoff : (r.address p - p.runtimeVaddr + 8).toNat =
        ((r.address p).toNat - p.runtimeVaddr.toNat + 8) % 2 ^ 64 := by
      rw [UInt64.toNat_add, UInt64.toNat_sub_of_le _ _ (UInt64.le_iff_toNat_le.mpr hle)]
      rfl
    split
    · next hlt =>
      have hlt := UInt64.lt_iff_toNat_lt.mp hlt
      rw [hoff] at hlt
      exact .inr ⟨⟨_, rfl⟩, fun h => by have := h.2; omega, fun h => by have := h.2; omega⟩
    · next hfits =>
      have hfits := UInt64.le_iff_toNat_le.mp (UInt64.not_lt.mp hfits)
      rw [hoff] at hfits
      refine .inl ⟨rfl, ?_⟩
      unfold Inside Wraps
      omega

/-- The reference is resolved as the instructions have it just where the end of the eight bytes does not wrap, and
an absolute operand that the sign changes is outside either way. -/
theorem resolved_iff (h : parseAutoTSSKeyRef code = .ok r) (hsize : p.runtimeSize ≠ 0) (hbody : p.bodyVaddr ≠ 0) :
    Resolved code r p ↔ ¬Wraps p (referencedSigned code p) ∧ (referencedSigned code p ≠ referenced code p →
        ¬Inside p (referenced code p) ∧ ¬Inside p (referencedSigned code p)) := by
  have haddr := address_eq h p
  have hcases := resolve_eq (r := r) hsize hbody
  rw [haddr] at hcases
  have hnot : Wraps p (referencedSigned code p) → ¬Inside p (referencedSigned code p) := by
    intro hwraps hinside
    have := hinside.2
    have := hwraps.2
    have := p.runtimeSize.toNat_lt
    omega
  unfold Resolved
  generalize referencedSigned code p = signed at *
  generalize referenced code p = addr at *
  constructor
  · rintro ⟨hin, hout⟩
    obtain ⟨hok, hwhere⟩ | ⟨⟨err, herr⟩, hinside, hwraps⟩ := hcases
    · by_cases hinside : Inside p addr
      · have heq : signed = addr := (UInt64.add_left_inj _).mp (Except.ok.inj (hok.symm.trans (hin hinside)))
        exact ⟨fun hwraps => hnot hwraps (heq ▸ hinside), fun hne => (hne heq).elim⟩
      · obtain ⟨err, herr⟩ := hout hinside
        cases hok.symm.trans herr
    · refine ⟨hwraps, fun hne => ⟨fun haddr => ?_, hinside⟩⟩
      cases herr.symm.trans (hin haddr)
  · rintro ⟨hwraps, hboth⟩
    by_cases heq : signed = addr
    · rw [← heq]
      obtain ⟨hok, hwhere⟩ | ⟨herr, hinside, -⟩ := hcases
      · exact ⟨fun _ => hok, fun hinside => (hwhere.elim hinside hwraps).elim⟩
      · exact ⟨fun h => (hinside h).elim, fun _ => herr⟩
    · obtain ⟨haddr, hsigned⟩ := hboth heq
      obtain ⟨-, hwhere⟩ | ⟨herr, -⟩ := hcases
      · exact (hwhere.elim hsigned hwraps).elim
      · exact ⟨fun h => (haddr h).elim, fun _ => herr⟩

def inlinedBody (off : List UInt8) : List UInt8 :=
  [0xf3, 0x0f, 0x1e, 0xfa, 0x48, 0x8b, 0x05, 0, 0, 0, 0, 0x83, 0xb8] ++ off ++ [0x00, 0x74, 0x0c, 0x48, 0x8d, 0xb8] ++
    off ++ [0xe9, 0, 0, 0, 0, 0x31, 0xc0, 0xc3]

theorem resolved_offset :
    let p : SymbolPlacement := ⟨0x5000, 0x1000, 0x4000, 0x700000⟩
    Resolved (inlinedBody [0x08, 0x06, 0, 0]) ⟨0x608, .runtimeOffset, 0⟩ p ↔
      ¬Wraps p (referencedSigned (inlinedBody [0x08, 0x06, 0, 0]) p) ∧
        (referencedSigned (inlinedBody [0x08, 0x06, 0, 0]) p ≠ referenced (inlinedBody [0x08, 0x06, 0, 0]) p →
          ¬Inside p (referenced (inlinedBody [0x08, 0x06, 0, 0]) p) ∧
            ¬Inside p (referencedSigned (inlinedBody [0x08, 0x06, 0, 0]) p)) :=
  resolved_iff (by decide +kernel) (by decide) (by decide)

/-- An offset of -4 from an object at 0: the address is four bytes below 2 to the 64, and is resolved. -/
theorem not_resolved :
    let code := inlinedBody [0xfc, 0xff, 0xff, 0xff]
    let p : SymbolPlacement := ⟨0, 0x1000, 0x4000, 0x700000⟩
    ¬∀ r, parseAutoTSSKeyRef code = .ok r → Resolved code r p := by
  intro code p h
  have hparse : parseAutoTSSKeyRef code = .ok ⟨0xfffffffffffffffc, .runtimeOffset, 0⟩ := by decide +kernel
  have hresolve : AutoTSSKeyRef.resolve ⟨0xfffffffffffffffc, .runtimeOffset, 0⟩ p = .ok 0x6ffffc := by decide +kernel
  obtain ⟨err, herr⟩ := (h _ hparse).2 (by unfold Inside; decide +kernel)
  cases hresolve.symm.trans herr

end PerfAgent.Pyunwind
