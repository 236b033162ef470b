import Mathlib.Data.UInt
import PerfAgent.Lib.Slices

/-!
# Numbers of `.eh_frame`

`unwind/ehcompile/encoding.go`: the two LEB128 readers and the pointer encodings, over a slice
that is not trusted.  A reader answers how many bytes it has consumed.
-/

namespace PerfAgent.Unwind

/-- The errors of `unwind/ehcompile`; the last four wrap another one with the place it arose. -/
inductive EhError where
  | truncated
  | uleb128TooLong
  | sleb128TooLong
  | unknownFormat
  | unsupportedRelativity
  | sixtyFourBit
  | zeroLengthCIE
  | nonZeroCIEId
  | unsupportedVersion (version : UInt8)
  | legacyAugmentation
  | unknownAugmentation (augmentation : List UInt8)
  | /-- The source names the character; this is its first byte. -/
    unknownAugmentationChar (c : UInt8)
  | unsupportedFDELength
  | unknownCIE (pos cieOff : UInt64)
  | unhandledOpcode (op : UInt8) (pos : Int)
  | rememberOverflow
  | restoreEmpty
  | setLocBackward
  | cieAt (pos : UInt64) (e : EhError)
  | fdeAt (pos : UInt64) (e : EhError)
  | cieInitAt (pc : UInt64) (e : EhError)
  | fdeRunAt (pc : UInt64) (e : EhError)
deriving DecidableEq

abbrev Go := Outcome EhError

/-! ## LEB128 -/

def uleb128From : List UInt8 → Nat → UInt64 → UInt64 → Go (UInt64 × Nat)
  | [], _, _, _ => .error .truncated
  | b :: bs, i, shift, result =>
    if 10 ≤ i then .error .uleb128TooLong
    else
      let result := result ||| ((b &&& 0x7f).toUInt64 <<< shift)
      if b &&& 0x80 = 0 then .ok (result, i + 1) else uleb128From bs (i + 1) (shift + 7) result

def decodeULEB128 (b : Slice UInt8) : Go (UInt64 × Nat) := uleb128From b.toList 0 0 0

def sleb128From : List UInt8 → Nat → UInt64 → Int64 → Go (Int64 × Nat)
  | [], _, _, _ => .error .truncated
  | b :: bs, i, shift, result =>
    if 10 ≤ i then .error .sleb128TooLong
    else
      let result := result ||| ((b &&& 0x7f).toUInt64 <<< shift).toInt64
      let shift := shift + 7
      if b &&& 0x80 = 0 then
        if shift < 64 ∧ b &&& 0x40 ≠ 0 then .ok (result ||| -((1 : UInt64) <<< shift).toInt64, i + 1)
        else .ok (result, i + 1)
      else sleb128From bs (i + 1) shift result

def decodeSLEB128 (b : Slice UInt8) : Go (Int64 × Nat) := sleb128From b.toList 0 0 0

/-! ## Pointer encodings -/

def dwEhPEAbsptr : UInt8 := 0x00
def dwEhPEOmit : UInt8 := 0xff

def dwEhPEUleb128 : UInt8 := 0x01
def dwEhPEUdata2 : UInt8 := 0x02
def dwEhPEUdata4 : UInt8 := 0x03
def dwEhPEUdata8 : UInt8 := 0x04
def dwEhPESleb128 : UInt8 := 0x09
def dwEhPESdata2 : UInt8 := 0x0a
def dwEhPESdata4 : UInt8 := 0x0b
def dwEhPESdata8 : UInt8 := 0x0c

def dwEhPEPcrel : UInt8 := 0x10
def dwEhPEDatarel : UInt8 := 0x30

/-- The little-endian number in the first `n` bytes of a slice. -/
def littleEndian (n : Nat) (b : Slice UInt8) : Go Nat :=
  if n ≤ b.len then .ok ((b.toList.take n).foldr (fun x v => x.toNat + 256 * v) 0) else .panic

/-- A number of `n` bytes, after the check that they are there. -/
def fixedWidth (n : Nat) (b : Slice UInt8) : Go (Nat × Nat) :=
  if b.len < n then .error .truncated else return (← littleEndian n b, n)

def decodeRaw (b : Slice UInt8) (format : UInt8) : Go (Int64 × Nat) :=
  if format = dwEhPEUleb128 then do
    let (u, n) ← decodeULEB128 b
    return (u.toInt64, n)
  else if format = dwEhPEUdata2 then do
    let (u, n) ← fixedWidth 2 b
    return (Int64.ofNat u, n)
  else if format = dwEhPEUdata4 then do
    let (u, n) ← fixedWidth 4 b
    return (Int64.ofNat u, n)
  else if format = dwEhPEUdata8 then do
    let (u, n) ← fixedWidth 8 b
    return ((UInt64.ofNat u).toInt64, n)
  else if format = dwEhPESleb128 then decodeSLEB128 b
  else if format = dwEhPESdata2 then do
    let (u, n) ← fixedWidth 2 b
    return ((UInt16.ofNat u).toInt16.toInt64, n)
  else if format = dwEhPESdata4 then do
    let (u, n) ← fixedWidth 4 b
    return ((UInt32.ofNat u).toInt32.toInt64, n)
  else if format = dwEhPESdata8 then do
    let (u, n) ← fixedWidth 8 b
    return ((UInt64.ofNat u).toInt64, n)
  else .error .unknownFormat

def decodeEHPointer (b : Slice UInt8) (enc : UInt8) (pcPos dataBase : UInt64) : Go (UInt64 × Nat) :=
  if enc = dwEhPEOmit then .ok (0, 0)
  else do
    let (raw, n) ← decodeRaw b (enc &&& 0x0f)
    let rel := enc &&& 0x70
    if rel = dwEhPEAbsptr then return ((0 + raw).toUInt64, n)
    else if rel = dwEhPEPcrel then return ((pcPos.toInt64 + raw).toUInt64, n)
    else if rel = dwEhPEDatarel then return ((dataBase.toInt64 + raw).toUInt64, n)
    else .error .unsupportedRelativity

/-! ## What a reader consumes -/

def Consumes {α : Type} (b : Slice UInt8) (x : Go (α × Nat)) : Prop := x.Ensures fun r => r.2 ≤ b.len

theorem Consumes.map {α β : Type} {b : Slice UInt8} {x : Go (α × Nat)} (hx : Consumes b x) (f : α → β) :
    Consumes b (x >>= fun r => pure (f r.1, r.2)) := Outcome.Ensures.bind hx fun _ hn => hn

variable (bs : List UInt8)

theorem uleb128From_ensures (i : Nat) (shift result : UInt64) :
    (uleb128From bs i shift result).Ensures fun r => r.2 ≤ i + bs.length := by
  induction bs generalizing i shift result with
  | nil => trivial
  | cons b bs ih =>
    rw [List.length_cons]
    refine .ite (fun _ => trivial) fun _ => .ite (fun _ => ?_) fun _ => ?_
    · show i + 1 ≤ i + (bs.length + 1)
      omega
    · rw [← Nat.add_assoc, Nat.add_right_comm]
      exact ih _ _ _

theorem sleb128From_ensures (i : Nat) (shift : UInt64) (result : Int64) :
    (sleb128From bs i shift result).Ensures fun r => r.2 ≤ i + bs.length := by
  induction bs generalizing i shift result with
  | nil => trivial
  | cons b bs ih =>
    rw [List.length_cons]
    have hone : i + 1 ≤ i + (bs.length + 1) := by omega
    refine .ite (fun _ => trivial) fun _ => .ite (fun _ => ?_) fun _ => ?_
    · exact .ite (fun _ => hone) fun _ => hone
    · rw [← Nat.add_assoc, Nat.add_right_comm]
      exact ih _ _ _

theorem consumes_decodeULEB128 (b : Slice UInt8) : Consumes b (decodeULEB128 b) := by
  have h := uleb128From_ensures b.toList 0 0 0
  rw [b.length_toList, Nat.zero_add] at h
  exact h

theorem consumes_decodeSLEB128 (b : Slice UInt8) : Consumes b (decodeSLEB128 b) := by
  have h := sleb128From_ensures b.toList 0 0 0
  rw [b.length_toList, Nat.zero_add] at h
  exact h

theorem littleEndian_returns {n : Nat} {b : Slice UInt8} (h : n ≤ b.len) : (littleEndian n b).Returns := by
  rw [littleEndian, if_pos h]
  trivial

theorem consumes_fixedWidth (n : Nat) (b : Slice UInt8) : Consumes b (fixedWidth n b) := by
  refine .ite (fun _ => trivial) fun hlen => ?_
  have hle : n ≤ b.len := Nat.not_lt.mp hlen
  exact .bind (.of_returns (littleEndian_returns hle) fun _ _ => hle) fun _ h => h

theorem consumes_decodeRaw (b : Slice UInt8) (format : UInt8) : Consumes b (decodeRaw b format) := by
  refine .ite (fun _ => (consumes_decodeULEB128 b).map UInt64.toInt64) fun _ => ?_
  refine .ite (fun _ => (consumes_fixedWidth 2 b).map Int64.ofNat) fun _ => ?_
  refine .ite (fun _ => (consumes_fixedWidth 4 b).map Int64.ofNat) fun _ => ?_
  refine .ite (fun _ => (consumes_fixedWidth 8 b).map fun u => (UInt64.ofNat u).toInt64) fun _ => ?_
  refine .ite (fun _ => consumes_decodeSLEB128 b) fun _ => ?_
  refine .ite (fun _ => (consumes_fixedWidth 2 b).map fun u => (UInt16.ofNat u).toInt16.toInt64) fun _ => ?_
  refine .ite (fun _ => (consumes_fixedWidth 4 b).map fun u => (UInt32.ofNat u).toInt32.toInt64) fun _ => ?_
  exact .ite (fun _ => (consumes_fixedWidth 8 b).map fun u => (UInt64.ofNat u).toInt64) fun _ => trivial

theorem consumes_decodeEHPointer (b : Slice UInt8) (enc : UInt8) (pcPos dataBase : UInt64) :
    Consumes b (decodeEHPointer b enc pcPos dataBase) := by
  refine .ite (fun _ => Nat.zero_le _) fun _ => ?_
  refine .bind (consumes_decodeRaw b _) ?_
  rintro ⟨raw, n⟩ hn
  refine .ite (fun _ => hn) fun _ => ?_
  refine .ite (fun _ => hn) fun _ => ?_
  exact .ite (fun _ => hn) fun _ => trivial

end PerfAgent.Unwind
