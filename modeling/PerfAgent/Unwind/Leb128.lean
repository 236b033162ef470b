import Mathlib.Tactic.Ring
import PerfAgent.Unwind.Encoding

/-!
# What the LEB128 readers read

A LEB128 number has no bound: its groups of seven bits go on until a byte without the top bit.
The readers take up to ten bytes, which is seventy bits, and keep the low 64 of these.
-/

namespace PerfAgent.Unwind

def ulebValue : List UInt8 → Nat
  | [] => 0
  | b :: bs =>
    if b &&& 0x80 = 0 then (b &&& 0x7f).toNat else (b &&& 0x7f).toNat + 128 * ulebValue bs

/-- The signed number that the bytes start with: the sign is the second highest bit of the last
byte. -/
def slebValue : List UInt8 → Int
  | [] => 0
  | b :: bs =>
    if b &&& 0x80 = 0 then (b &&& 0x7f).toNat - if b &&& 0x40 ≠ 0 then 128 else 0
    else (b &&& 0x7f).toNat + 128 * slebValue bs

def lebLength : List UInt8 → Nat
  | [] => 0
  | b :: bs => if b &&& 0x80 = 0 then 1 else 1 + lebLength bs

/-! ## Groups of seven bits -/

theorem or_shiftLeft_mod {r d k : Nat} (hr : r < 2 ^ k) (hk : k ≤ 64) :
    r ||| (d <<< k % 2 ^ 64) = (r + 2 ^ k * d) % 2 ^ 64 := by
  have hle : 2 ^ k ≤ 2 ^ 64 := Nat.pow_le_pow_right (by decide) hk
  have hsum : r + 2 ^ k * d = d <<< k ||| r := by
    rw [← Nat.shiftLeft_add_eq_or_of_lt hr, Nat.shiftLeft_eq]
    ring
  rw [hsum, Nat.or_mod_two_pow, Nat.mod_eq_of_lt (Nat.lt_of_lt_of_le hr hle), Nat.or_comm]

theorem toNat_or_group {result shift : UInt64} {b : UInt8} {i : Nat} (hi : i < 10) (hshift : shift.toNat = 7 * i)
    (hr : result.toNat < 2 ^ (7 * i)) :
    (result ||| ((b &&& 0x7f).toUInt64 <<< shift)).toNat =
      (result.toNat + 2 ^ (7 * i) * (b &&& 0x7f).toNat) % 2 ^ 64 := by
  have hmod : 7 * i % 64 = 7 * i := Nat.mod_eq_of_lt (by omega)
  rw [UInt64.toNat_or, UInt64.toNat_shiftLeft, UInt8.toNat_toUInt64, hshift, hmod]
  exact or_shiftLeft_mod hr (by omega)

theorem group_lt (b : UInt8) : (b &&& 0x7f).toNat < 128 := by
  have h : (b &&& 0x7f).toNat ≤ (0x7f : UInt8).toNat := by
    rw [UInt8.toNat_and]
    exact Nat.and_le_right
  exact Nat.lt_of_le_of_lt h (by decide)

theorem groups_lt {r d i : Nat} (hr : r < 2 ^ (7 * i)) (hd : d < 128) : r + 2 ^ (7 * i) * d < 2 ^ (7 * (i + 1)) := by
  have hpow : 2 ^ (7 * (i + 1)) = 2 ^ (7 * i) + 2 ^ (7 * i) * 127 := by
    rw [Nat.mul_succ, pow_add]
    ring
  have hmul : 2 ^ (7 * i) * d ≤ 2 ^ (7 * i) * 127 := Nat.mul_le_mul_left _ (by omega)
  omega

theorem toNat_or_group_lt {result shift : UInt64} {b : UInt8} {i : Nat} (hi : i < 9) (hshift : shift.toNat = 7 * i)
    (hr : result.toNat < 2 ^ (7 * i)) :
    (result ||| ((b &&& 0x7f).toUInt64 <<< shift)).toNat = result.toNat + 2 ^ (7 * i) * (b &&& 0x7f).toNat := by
  have hle : 2 ^ (7 * (i + 1)) ≤ 2 ^ 64 := Nat.pow_le_pow_right (by decide) (by omega)
  rw [toNat_or_group (by omega) hshift hr, Nat.mod_eq_of_lt (Nat.lt_of_lt_of_le (groups_lt hr (group_lt b)) hle)]

theorem shift_add_seven {shift : UInt64} {i : Nat} (hi : i < 10) (h : shift.toNat = 7 * i) :
    (shift + 7).toNat = 7 * (i + 1) := by
  rw [UInt64.toNat_add, h]
  show (7 * i + 7) % 2 ^ 64 = 7 * (i + 1)
  omega

/-! ## The unsigned reader -/

variable {bs : List UInt8}

theorem uleb128From_ne_ok {i : Nat} {shift result : UInt64} {r : UInt64 × Nat} (h : 10 ≤ i) :
    uleb128From bs i shift result ≠ .ok r := by
  cases bs with
  | nil => exact nofun
  | cons b bs =>
    rw [uleb128From, if_pos h]
    exact nofun

variable {l : List UInt8}

theorem uleb128From_exact {i n : Nat} {shift result v : UInt64} (hl : bs <+: l) (hshift : shift.toNat = 7 * i)
    (hr : result.toNat < 2 ^ (7 * i)) (h : uleb128From bs i shift result = .ok (v, n)) :
    v.toNat = (result.toNat + 2 ^ (7 * i) * ulebValue l) % 2 ^ 64 ∧ n = i + lebLength l := by
  induction bs generalizing l i shift result with
  | nil => cases h
  | cons b bs ih =>
    obtain ⟨t, rfl⟩ := hl
    rw [List.cons_append, ulebValue, lebLength]
    rw [uleb128From] at h
    split at h
    · cases h
    · next hi =>
      have hi : i < 10 := Nat.not_le.mp hi
      dsimp only at h
      split at h
      · next hlast =>
        cases h
        rw [if_pos hlast, if_pos hlast, toNat_or_group hi hshift hr]
        exact ⟨rfl, rfl⟩
      · next hmore =>
        rw [if_neg hmore, if_neg hmore]
        by_cases hnine : i = 9
        · exact (uleb128From_ne_ok (by omega) h).elim
        · have hlt := toNat_or_group_lt (b := b) (by omega) hshift hr
          obtain ⟨hv, hn⟩ := ih (List.prefix_append bs t) (shift_add_seven hi hshift)
            (hlt ▸ groups_lt hr (group_lt b)) h
          have hpow : 2 ^ (7 * (i + 1)) = 2 ^ (7 * i) * 128 := by
            rw [Nat.mul_succ, pow_add]
            rfl
          refine ⟨?_, by omega⟩
          rw [hv, hlt, hpow]
          congr 1
          ring

theorem decodeULEB128_exact {b : Slice UInt8} {v : UInt64} {n : Nat} (hl : b.toList <+: l)
    (h : decodeULEB128 b = .ok (v, n)) : v.toNat = ulebValue l % 2 ^ 64 ∧ n = lebLength l := by
  obtain ⟨hv, hn⟩ := uleb128From_exact hl rfl Nat.one_pos h
  refine ⟨?_, by omega⟩
  rw [hv]
  congr 1
  show 0 + 1 * ulebValue l = ulebValue l
  omega

/-! ## The signed reader -/

theorem toUInt64_or_toInt64 (x : Int64) (y : UInt64) : (x ||| y.toInt64).toUInt64 = x.toUInt64 ||| y := rfl

theorem toNat_or_sign {acc shift : UInt64} {k : Nat} (hk : k < 64) (hshift : shift.toNat = k)
    (hacc : acc.toNat < 2 ^ k) : (acc ||| -((1 : UInt64) <<< shift)).toNat = acc.toNat + (2 ^ 64 - 2 ^ k) := by
  have hle : 2 ^ k ≤ 2 ^ 64 := Nat.pow_le_pow_right (by decide) (by omega)
  have hlt : 2 ^ k < 2 ^ 64 := Nat.pow_lt_pow_right (by decide) hk
  have hone : ((1 : UInt64) <<< shift).toNat = 2 ^ k := by
    rw [UInt64.toNat_shiftLeft, hshift, Nat.mod_eq_of_lt hk]
    show 1 <<< k % 2 ^ 64 = 2 ^ k
    rw [Nat.one_shiftLeft, Nat.mod_eq_of_lt hlt]
  have hpos : 0 < 2 ^ k := Nat.two_pow_pos k
  have hneg : (-((1 : UInt64) <<< shift)).toNat = 2 ^ 64 - 2 ^ k := by
    rw [UInt64.toNat_neg, hone]
    exact Nat.mod_eq_of_lt (Nat.sub_lt (by decide) hpos)
  have hhigh : 2 ^ 64 - 2 ^ k = (2 ^ (64 - k) - 1) <<< k := by
    rw [Nat.shiftLeft_eq, Nat.sub_mul, ← pow_add, Nat.sub_add_cancel (by omega), one_mul]
  rw [UInt64.toNat_or, hneg, hhigh, Nat.or_comm, ← Nat.shiftLeft_add_eq_or_of_lt hacc, Nat.add_comm]

theorem sleb128From_ne_ok {i : Nat} {shift : UInt64} {result : Int64} {r : Int64 × Nat} (h : 10 ≤ i) :
    sleb128From bs i shift result ≠ .ok r := by
  cases bs with
  | nil => exact nofun
  | cons b bs =>
    rw [sleb128From, if_pos h]
    exact nofun

theorem sleb128From_exact {i n : Nat} {shift : UInt64} {result v : Int64} (hl : bs <+: l) (hshift : shift.toNat = 7 * i)
    (hr : result.toUInt64.toNat < 2 ^ (7 * i)) (h : sleb128From bs i shift result = .ok (v, n)) :
    (v.toUInt64.toNat : Int) = (result.toUInt64.toNat + 2 ^ (7 * i) * slebValue l) % 2 ^ 64 ∧ n = i + lebLength l := by
  induction bs generalizing l i shift result with
  | nil => cases h
  | cons b bs ih =>
    obtain ⟨t, rfl⟩ := hl
    rw [List.cons_append, slebValue, lebLength]
    rw [sleb128From] at h
    split at h
    · cases h
    · next hi =>
      have hi : i < 10 := Nat.not_le.mp hi
      have hgroup := toNat_or_group (b := b) hi hshift hr
      rw [← toUInt64_or_toInt64] at hgroup
      have hpow : (2 : Int) ^ (7 * (i + 1)) = 2 ^ (7 * i) * 128 := by
        rw [Nat.mul_succ, pow_add]
        rfl
      dsimp only at h
      split at h
      · next hlast =>
        rw [if_pos hlast, if_pos hlast]
        have hshift' := shift_add_seven hi hshift
        split at h
        · next hsign =>
          cases h
          have hi' : i < 9 := by
            have : (shift + 7).toNat < 64 := hsign.1
            omega
          have hlt := toNat_or_group_lt (b := b) hi' hshift hr
          rw [← toUInt64_or_toInt64] at hlt
          have hacc := groups_lt hr (group_lt b)
          have hneg := toNat_or_sign (k := 7 * (i + 1)) (by omega) hshift' (hlt ▸ hacc)
          refine ⟨?_, rfl⟩
          have hv : ((result ||| ((b &&& 0x7f).toUInt64 <<< shift).toInt64 |||
              -((1 : UInt64) <<< (shift + 7)).toInt64).toUInt64.toNat) =
                result.toUInt64.toNat + 2 ^ (7 * i) * (b &&& 0x7f).toNat + (2 ^ 64 - 2 ^ (7 * (i + 1))) := by
            rw [← hlt, ← hneg]
            rfl
          have hbound : (2 : Nat) ^ (7 * (i + 1)) ≤ 2 ^ 63 := Nat.pow_le_pow_right (by decide) (by omega)
          have hpow' : (2 : Nat) ^ (7 * (i + 1)) = 2 ^ (7 * i) * 128 := by
            rw [Nat.mul_succ, pow_add]
            rfl
          rw [if_pos hsign.2, hv, mul_sub]
          have hcast : ((2 ^ (7 * i) : Nat) : Int) = 2 ^ (7 * i) := by push_cast; rfl
          rw [← hcast]
          omega
        · next hsign =>
          cases h
          refine ⟨?_, rfl⟩
          rw [hgroup]
          by_cases hbit : b &&& 0x40 ≠ 0
          · -- the tenth byte: the sign is above the low 64 bits
            have hnine : i = 9 := by
              by_contra hne
              refine hsign ⟨?_, hbit⟩
              show (shift + 7).toNat < 64
              omega
            subst hnine
            rw [if_pos hbit]
            push_cast
            omega
          · rw [if_neg hbit, sub_zero]
            push_cast
            rfl
      · next hmore =>
        rw [if_neg hmore, if_neg hmore]
        by_cases hnine : i = 9
        · exact (sleb128From_ne_ok (by omega) h).elim
        · have hlt := toNat_or_group_lt (b := b) (by omega) hshift hr
          rw [← toUInt64_or_toInt64] at hlt
          obtain ⟨hv, hn⟩ := ih (List.prefix_append bs t) (shift_add_seven hi hshift)
            (hlt ▸ groups_lt hr (group_lt b)) h
          refine ⟨?_, by omega⟩
          rw [hv, hlt, hpow]
          push_cast
          congr 1
          ring

theorem decodeSLEB128_exact {b : Slice UInt8} {v : Int64} {n : Nat} (hl : b.toList <+: l)
    (h : decodeSLEB128 b = .ok (v, n)) : v.toInt = (slebValue l).bmod (2 ^ 64) ∧ n = lebLength l := by
  obtain ⟨hv, hn⟩ := sleb128From_exact hl rfl Nat.one_pos h
  refine ⟨?_, by omega⟩
  have hnat : v.toInt = (v.toUInt64.toNat : Int).bmod (2 ^ 64) := BitVec.toInt_eq_toNat_bmod v.toBitVec
  have hvalue : (v.toUInt64.toNat : Int) = slebValue l % (2 ^ 64 : Nat) := by
    rw [hv]
    congr 1
    show 0 + 1 * slebValue l = slebValue l
    omega
  rw [hnat, hvalue, Int.emod_bmod]

end PerfAgent.Unwind
