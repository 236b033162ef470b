import Mathlib.Data.UInt
import Mathlib.Tactic.NormNum.Basic

/-!
# Little-endian numbers

The bytes of a number, least significant first, and the number that bytes stand for.
-/

namespace PerfAgent

open List

/-- The first `n` bytes of a number. -/
def leBytes : Nat → Nat → List UInt8
  | 0, _ => []
  | n + 1, v => UInt8.ofNat v :: leBytes n (v / 256)

def leValue (b : List UInt8) : Nat := b.foldr (fun x v => x.toNat + 256 * v) 0

@[simp] theorem length_leBytes (n v : Nat) : (leBytes n v).length = n := by
  induction n generalizing v with
  | zero => rfl
  | succ n ih => rw [leBytes, length_cons, ih]

theorem leValue_leBytes (n v : Nat) : leValue (leBytes n v) = v % 256 ^ n := by
  induction n generalizing v with
  | zero => exact (Nat.mod_one v).symm
  | succ n ih =>
    have hfirst : (UInt8.ofNat v).toNat = v % 256 := UInt8.toNat_ofNat'
    show (UInt8.ofNat v).toNat + 256 * leValue (leBytes n (v / 256)) = v % 256 ^ (n + 1)
    rw [ih, hfirst, Nat.pow_succ', Nat.mod_mul]

theorem leValue_leBytes_of_lt {n v : Nat} (h : v < 256 ^ n) : leValue (leBytes n v) = v := by
  rw [leValue_leBytes, Nat.mod_eq_of_lt h]

theorem leValue_lt (b : List UInt8) : leValue b < 256 ^ b.length := by
  induction b with
  | nil => exact Nat.one_pos
  | cons x b ih =>
    have hx := x.toNat_lt
    show x.toNat + 256 * leValue b < 256 ^ (b.length + 1)
    rw [Nat.pow_succ']
    omega

theorem leBytes_leValue (b : List UInt8) : leBytes b.length (leValue b) = b := by
  induction b with
  | nil => rfl
  | cons x b ih =>
    have hx := x.toNat_lt
    have hval : leValue (x :: b) = x.toNat + 256 * leValue b := rfl
    have hhead : UInt8.ofNat (x.toNat + 256 * leValue b) = x := UInt8.toNat_inj.mp (by
      rw [UInt8.toNat_ofNat', Nat.add_mul_mod_self_left, Nat.mod_eq_of_lt hx])
    have htail : (x.toNat + 256 * leValue b) / 256 = leValue b := by omega
    rw [length_cons, hval, leBytes, hhead, htail, ih]

theorem leValue_append (a b : List UInt8) : leValue (a ++ b) = leValue a + 256 ^ a.length * leValue b := by
  induction a with
  | nil => simp [leValue]
  | cons x a ih =>
    change x.toNat + 256 * leValue (a ++ b) = x.toNat + 256 * leValue a + 256 ^ (a.length + 1) * leValue b
    rw [ih, Nat.mul_add, Nat.pow_succ', Nat.mul_assoc, Nat.add_assoc]

/-- The number in `n` bytes at an offset. -/
def leAt (b : List UInt8) (off n : Nat) : Nat := leValue ((b.drop off).take n)

theorem leAt_append {b : List UInt8} {k : Nat} (hb : b.length = k) (rest : List UInt8) (off n : Nat) :
    leAt (b ++ rest) (k + off) n = leAt rest off n := by
  unfold leAt
  rw [← hb, drop_length_add_append]

theorem leAt_leBytes (n v : Nat) (rest : List UInt8) : leAt (leBytes n v ++ rest) 0 n = v % 256 ^ n := by
  unfold leAt
  rw [drop_zero, take_left' (length_leBytes n v), leValue_leBytes]

/-- Words of `n` bytes after each other. -/
def leWords (n : Nat) (vs : List Nat) : List UInt8 := vs.flatMap (leBytes n)

@[simp] theorem length_leWords (n : Nat) (vs : List Nat) : (leWords n vs).length = n * vs.length := by
  induction vs with
  | nil => rfl
  | cons v vs ih =>
    show (leBytes n v ++ leWords n vs).length = _
    rw [List.length_append, length_leBytes, ih, length_cons, Nat.mul_succ, Nat.add_comm]

theorem leAt_leWords (n : Nat) (vs : List Nat) (rest : List UInt8) (i : Nat) (h : i < vs.length) :
    leAt (leWords n vs ++ rest) (n * i) n = vs[i] % 256 ^ n := by
  induction vs generalizing i with
  | nil => exact absurd h (Nat.not_lt_zero i)
  | cons v vs ih =>
    show leAt (leBytes n v ++ leWords n vs ++ rest) (n * i) n = _
    rw [append_assoc]
    cases i with
    | zero => exact leAt_leBytes n v _
    | succ i =>
      rw [Nat.mul_succ, Nat.add_comm, leAt_append (length_leBytes n v)]
      exact ih i (Nat.lt_of_succ_lt_succ h)

end PerfAgent
