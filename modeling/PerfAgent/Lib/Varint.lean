import Mathlib.Tactic.NormNum.Basic
import PerfAgent.Lib.StreamParser

/-!
# Varints

The variable-length encoding of 64-bit numbers in base 128, least significant digit first, with
the top bit on every byte but the last (`PutUvarint` and `ReadUvarint` of `encoding/binary`);
the zigzag map, which sends small differences of either sign to small numbers; and fixed
32-bit numbers, least significant byte first.
-/

namespace PerfAgent

def maxVarintLen64 : Nat := 10

/-- The bytes of a number, at most `n` of them. -/
def uvarintIn : Nat → Nat → List UInt8
  | 0, _ => []
  | n + 1, v =>
    if v < 128 then [UInt8.ofNat v] else UInt8.ofNat (v % 128 + 128) :: uvarintIn n (v / 128)

/-- `PutUvarint`. -/
def uvarint (v : UInt64) : List UInt8 := uvarintIn maxVarintLen64 v.toNat

namespace StreamParser

variable {σ : Type} {ε : Type}

/-- Read a varint of at most `n` bytes; `scale` is what the next digit counts for.  A last byte
that may not be there, or that is too large to fit, is an overflow. -/
def uvarintFrom (upd : σ → UInt8 → σ) (e : ε) : Nat → Nat → Nat → StreamParser UInt8 σ ε UInt64
  | 0, _, _ => throw e
  | n + 1, scale, acc => do
      let b ← item upd e
      if b.toNat < 128 then
        if n = 0 ∧ b.toNat > 1 then throw e else pure (UInt64.ofNat (acc + b.toNat * scale))
      else uvarintFrom upd e n (scale * 128) (acc + (b.toNat - 128) * scale)

variable (upd : σ → UInt8 → σ)

/-- `ReadUvarint`. -/
def readUvarint (e : ε) : StreamParser UInt8 σ ε UInt64 :=
  uvarintFrom upd e maxVarintLen64 1 0

theorem local_uvarintFrom (e : ε) (n scale acc : Nat) : Local (uvarintFrom upd e n scale acc) := by
  induction n generalizing scale acc with
  | zero => exact local_throw e
  | succ n ih =>
    refine (local_item upd e).bind fun b => Local.ite ?_ (ih _ _)
    exact Local.ite (local_throw e) (local_pure _)

theorem local_readUvarint (e : ε) : Local (readUvarint upd e) :=
  local_uvarintFrom upd e _ _ _

theorem reads_last (e : ε) {n v : Nat} (scale acc : Nat) (hv : v < 128) (hlast : n = 0 → v ≤ 1) :
    Reads upd (uvarintFrom upd e (n + 1) scale acc) [UInt8.ofNat v] (UInt64.ofNat (acc + v * scale)) := by
  have hb : (UInt8.ofNat v).toNat = v := by
    rw [UInt8.toNat_ofNat']
    omega
  refine (reads_item e (UInt8.ofNat v)).bind (d := []) ?_
  rw [hb, if_pos hv]
  refine Reads.guard ?_ (reads_pure _)
  rintro ⟨hn, hlt⟩
  exact absurd (hlast hn) (Nat.not_le.mpr hlt)

theorem reads_uvarintFrom (e : ε) {n v : Nat} (scale acc : Nat) (hv : v < 2 ^ (7 * n + 1)) :
    Reads upd (uvarintFrom upd e (n + 1) scale acc) (uvarintIn (n + 1) v) (UInt64.ofNat (acc + v * scale)) := by
  induction n generalizing v scale acc with
  | zero =>
    rw [uvarintIn, if_pos (by omega)]
    exact reads_last upd e scale acc (by omega) fun _ => by omega
  | succ n ih =>
    by_cases hlt : v < 128
    · rw [uvarintIn, if_pos hlt]
      exact reads_last upd e scale acc hlt nofun
    · have hb : (UInt8.ofNat (v % 128 + 128)).toNat = v % 128 + 128 := by
        rw [UInt8.toNat_ofNat']
        omega
      have hdiv : v / 128 < 2 ^ (7 * n + 1) := by
        rw [Nat.div_lt_iff_lt_mul (by decide)]
        have hpow : 2 ^ (7 * (n + 1) + 1) = 2 ^ (7 * n + 1) * 2 ^ 7 := by
          rw [← pow_add]
          rfl
        exact hpow ▸ hv
      have hsum : acc + v % 128 * scale + v / 128 * (scale * 128) = acc + v * scale := by
        have hv' : v * scale = (v % 128 + v / 128 * 128) * scale := by
          rw [Nat.mod_add_div']
        rw [hv', Nat.add_mul, Nat.mul_assoc, Nat.mul_comm scale 128, Nat.add_assoc]
      rw [uvarintIn, if_neg hlt]
      refine (reads_item e (UInt8.ofNat (v % 128 + 128))).bind (d := uvarintIn (n + 1) (v / 128)) ?_
      rw [hb, if_neg (by omega), Nat.add_sub_cancel]
      have h := ih (scale * 128) (acc + v % 128 * scale) hdiv
      rw [hsum] at h
      exact h

theorem reads_uvarint (e : ε) (v : UInt64) : Reads upd (readUvarint upd e) (uvarint v) v := by
  have hlt : v.toNat < 2 ^ (7 * 9 + 1) := v.toNat_lt
  have h := reads_uvarintFrom upd e 1 0 hlt
  rw [Nat.zero_add, Nat.mul_one, UInt64.ofNat_toNat] at h
  exact h

end StreamParser

/-! ## Zigzag -/

def zigzag (d : UInt64) : UInt64 := (d <<< 1) ^^^ (d.toInt64 >>> 63).toUInt64

def unzigzag (z : UInt64) : UInt64 := (z >>> 1) ^^^ -(z &&& 1)

variable (x : BitVec 64)

theorem sshiftRight_sign : x.sshiftRight 63 = if x.msb then BitVec.allOnes 64 else 0#64 := by
  have hlt := x.isLt
  cases h : x.msb with
  | false =>
    have hmsb : x.toNat < 2 ^ 63 := by simpa [BitVec.msb_eq_decide] using h
    rw [BitVec.sshiftRight_eq_of_msb_false h]
    apply BitVec.eq_of_toNat_eq
    simp only [BitVec.toNat_ushiftRight, Nat.shiftRight_eq_div_pow]
    simp; omega
  | true =>
    have hmsb : 2 ^ 63 ≤ x.toNat := by simpa [BitVec.msb_eq_decide] using h
    have hzero : ~~~x >>> 63 = 0#64 := by
      apply BitVec.eq_of_toNat_eq
      simp only [BitVec.toNat_ushiftRight, Nat.shiftRight_eq_div_pow, BitVec.toNat_not]
      simp; omega
    rw [BitVec.sshiftRight_eq_of_msb_true h, hzero]
    rfl

theorem unzigzag_bits : ((x <<< 1) ^^^ x.sshiftRight 63) >>> 1 ^^^
      -(((x <<< 1) ^^^ x.sshiftRight 63) &&& 1#64) = x := by
  have hlt := x.isLt
  rw [sshiftRight_sign]
  cases h : x.msb with
  | false =>
    have hmsb : x.toNat < 2 ^ 63 := by simpa [BitVec.msb_eq_decide] using h
    have heven : x <<< 1 &&& 1#64 = 0#64 := by
      apply BitVec.eq_of_toNat_eq
      simp [Nat.shiftLeft_eq]
    simp only [Bool.false_eq_true, if_false, BitVec.xor_zero, heven]
    apply BitVec.eq_of_toNat_eq
    simp [Nat.shiftLeft_eq, Nat.shiftRight_eq_div_pow]
    omega
  | true =>
    have hmsb : 2 ^ 63 ≤ x.toNat := by simpa [BitVec.msb_eq_decide] using h
    have hodd : ~~~(x <<< 1) &&& 1#64 = 1#64 := by
      apply BitVec.eq_of_toNat_eq
      simp [Nat.shiftLeft_eq]
      omega
    have hones : -(1#64) = BitVec.allOnes 64 := rfl
    simp only [if_true, BitVec.xor_allOnes, hodd, hones]
    apply BitVec.eq_of_toNat_eq
    simp [Nat.shiftLeft_eq, Nat.shiftRight_eq_div_pow]
    omega

theorem unzigzag_zigzag (d : UInt64) : unzigzag (zigzag d) = d := by
  have hsign : (d.toInt64 >>> 63).toUInt64.toBitVec = d.toBitVec.sshiftRight 63 := by
    show (d.toInt64 >>> 63).toBitVec = _
    rw [Int64.toBitVec_shiftRight]
    rfl
  apply UInt64.toBitVec_inj.mp
  have hz : (zigzag d).toBitVec = (d.toBitVec <<< 1) ^^^ d.toBitVec.sshiftRight 63 := by
    rw [zigzag, UInt64.toBitVec_xor, hsign]
    rfl
  rw [unzigzag, UInt64.toBitVec_xor, UInt64.toBitVec_neg, UInt64.toBitVec_and, UInt64.toBitVec_shiftRight, hz]
  exact unzigzag_bits d.toBitVec

/-! ## Little-endian words -/

def putUint32 (v : UInt32) : List UInt8 :=
  [UInt8.ofNat v.toNat, UInt8.ofNat (v.toNat / 256), UInt8.ofNat (v.toNat / 65536), UInt8.ofNat (v.toNat / 16777216)]

def uint32 (b : List UInt8) : UInt32 :=
  match b with
  | [b₀, b₁, b₂, b₃] =>
    UInt32.ofNat (b₀.toNat + 256 * b₁.toNat + 65536 * b₂.toNat + 16777216 * b₃.toNat)
  | _ => 0

theorem uint32_putUint32 (v : UInt32) : uint32 (putUint32 v) = v := by
  have hlt := v.toNat_lt
  unfold uint32 putUint32
  simp only [UInt8.toNat_ofNat']
  have hsum : v.toNat % 2 ^ 8 + 256 * (v.toNat / 256 % 2 ^ 8) + 65536 * (v.toNat / 65536 % 2 ^ 8) +
      16777216 * (v.toNat / 16777216 % 2 ^ 8) = v.toNat := by omega
  rw [hsum, UInt32.ofNat_toNat]

end PerfAgent
