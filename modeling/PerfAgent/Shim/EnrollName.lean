import PerfAgent.Pprof.Frames
import PerfAgent.Procmap.ParseMaps
import Mathlib.Tactic.IntervalCases

/-!
# The name of the rendezvous

`enroll_name_from_maps` of `shim/core/enroll.cc` and `enrollShimIdentity` of `gpuprobe/enroll.go`, which both look for
an address in `/proc/self/maps`.  The shim reads into a buffer, so that the rest of a line that is longer comes as
another one; the agent reads whole lines.
-/

namespace PerfAgent.Shim

open Procmap Text List
open Pprof (ascii)

/-! ## Numbers and names -/

def isDigit (base : Nat) (b : UInt8) : Bool := (hexValue b).any (· < base)

def digitsValue (base : Nat) (l : List UInt8) : Nat := l.foldl (fun v b => v * base + (hexValue b).getD 0) 0

def decimal (v : Nat) : List UInt8 := padded 10 1 v

def enrollName (major minor inode : Nat) : List UInt8 :=
  ascii "perfagent-gpu-enroll.v1." ++ decimal major ++ '.'.toUInt8 :: (decimal minor ++ '.'.toUInt8 :: decimal inode)

/-! ## The shim -/

/-- `sizeof(line) - 1`. -/
def lineRoom : Nat := 4095

/-- What the calls of `fgets` return, where `piece` is in the buffer already. -/
def fgetsFrom (piece : List UInt8) : List UInt8 → List (List UInt8)
  | [] => if piece = [] then [] else [piece]
  | b :: l =>
    if b = 10 ∨ piece.length + 1 = lineRoom then (piece ++ [b]) :: fgetsFrom [] l else fgetsFrom (piece ++ [b]) l

def isSpace (b : UInt8) : Bool := (9 ≤ b && b ≤ 13) || b = 0x20

/-- `%lx` and `%lu`, which take what `strtoul` takes: a sign, and `0x` in front of a number of base 16. -/
def scanULong (base : Nat) (l : List UInt8) : Option (Nat × List UInt8) :=
  let l := l.dropWhile isSpace
  let neg := l.head? = some '-'.toUInt8
  let l := if neg ∨ l.head? = some '+'.toUInt8 then l.tail else l
  let l :=
    if base = 16 ∧ l[0]? = some '0'.toUInt8 ∧ (l[1]? = some 'x'.toUInt8 ∨ l[1]? = some 'X'.toUInt8) then l.drop 2 else l
  let ds := l.takeWhile (isDigit base)
  let v := digitsValue base ds
  if ds = [] then none
  else some (if 2 ^ 64 ≤ v then 2 ^ 64 - 1 else if neg then (2 ^ 64 - v) % 2 ^ 64 else v, l.drop ds.length)

/-- `%ns`. -/
def scanWord (n : Nat) (l : List UInt8) : Option (List UInt8) :=
  let l := l.dropWhile isSpace
  let w := (l.takeWhile fun b => !isSpace b).take n
  if w = [] then none else some (l.drop w.length)

def scanLiteral (c : UInt8) : List UInt8 → Option (List UInt8)
  | [] => none
  | b :: l => if b = c then some l else none

structure MapsFields where
  lo : Nat
  hi : Nat
  major : Nat
  minor : Nat
  inode : Nat
deriving DecidableEq

/-- The `sscanf` over a line, which ends at the first NUL. -/
def scanMapsLine (line : List UInt8) : Option MapsFields := do
  let (lo, l) ← scanULong 16 (line.takeWhile (· ≠ 0))
  let l ← scanLiteral '-'.toUInt8 l
  let (hi, l) ← scanULong 16 l
  let l ← scanWord 7 l
  let (_, l) ← scanULong 16 l
  let (major, l) ← scanULong 16 l
  let l ← scanLiteral ':'.toUInt8 l
  let (minor, l) ← scanULong 16 l
  let (inode, _) ← scanULong 10 l
  return { lo, hi, major := major % 2 ^ 32, minor := minor % 2 ^ 32, inode }

def covering (addr : UInt64) (line : List UInt8) : Option MapsFields :=
  (scanMapsLine line).filter fun f => f.lo ≤ addr.toNat ∧ addr.toNat < f.hi

def enrollNameFromMaps (maps : List UInt8) (addr : UInt64) (outsz : Nat) : Option (List UInt8) := do
  let f ← (fgetsFrom [] maps).findSome? (covering addr)
  if f.inode = 0 then none
  else
    let name := enrollName f.major f.minor f.inode
    if name.length < outsz then some name else none

/-! ## The agent -/

/-- `strconv.ParseUint` for numbers below `limit`. -/
def parseUint (base limit : Nat) (l : List UInt8) : Option Nat :=
  if l ≠ [] ∧ l.all (isDigit base) ∧ digitsValue base l < limit then some (digitsValue base l) else none

/-- `strings.Cut`. -/
def cut (sep : UInt8) (l : List UInt8) : Option (List UInt8 × List UInt8) :=
  if sep ∈ l then some (l.takeWhile (· ≠ sep), (l.dropWhile (· ≠ sep)).tail) else none

def parseMapsRange (field : List UInt8) : Option (Nat × Nat) := do
  let (l, h) ← cut '-'.toUInt8 field
  return (← parseUint 16 (2 ^ 64) l, ← parseUint 16 (2 ^ 64) h)

def parseMapsDev (field : List UInt8) : Option (Nat × Nat) := do
  let (major, minor) ← cut ':'.toUInt8 field
  return (← parseUint 16 (2 ^ 32) major, ← parseUint 16 (2 ^ 32) minor)

/-- What a line says about the address: the numbers of the device and the inode. -/
def identityOf (addr : UInt64) (line : List UInt8) : Option (Nat × Nat × Nat) :=
  match fields line with
  | range :: _perms :: _offset :: dev :: inode :: _ => do
    let (lo, hi) ← parseMapsRange range
    if addr.toNat < lo ∨ hi ≤ addr.toNat then none
    else
      let (major, minor) ← parseMapsDev dev
      let inode ← parseUint 10 (2 ^ 64) inode
      if inode = 0 then none else some (major, minor, inode)
  | _ => none

inductive IdentityError where
  | tooLong
  | notFound
deriving DecidableEq

structure Devices where
  mkdev : UInt32 → UInt32 → UInt64
  major : UInt64 → UInt32
  minor : UInt64 → UInt32

/-- The scan of `enrollShimIdentity`, once the file is mapped at `addr`. -/
def enrollShimIdentity (d : Devices) (maps : List UInt8) (addr : UInt64) : Except IdentityError (UInt64 × UInt64) :=
  let s := scanLines maxScanTokenSize maps
  match s.1.findSome? (identityOf addr) with
  | some (major, minor, inode) => .ok (d.mkdev (.ofNat major) (.ofNat minor), .ofNat inode)
  | none => .error (if s.2 then .tooLong else .notFound)

def enrollAddressFor (d : Devices) (dev inode : UInt64) : List UInt8 :=
  '@'.toUInt8 :: enrollName (d.major dev).toNat (d.minor dev).toNat inode.toNat

/-! ## Numbers that are printed -/

section Numbers

variable {base : Nat} (width v : Nat) {b c : UInt8} {l : List UInt8}

theorem isDigit_of_mem_padded (hpos : 0 < base) (hbase : base ≤ 16) (hb : b ∈ padded base width v) :
    isDigit base b = true := by
  obtain ⟨d, hd, rfl⟩ := mem_digits hpos hb
  simp [isDigit, hexValue_digit d (hd.trans_le hbase), hd]

theorem plain_of_isDigit : ∀ {b : UInt8}, isDigit 16 b = true →
    isSpace b = false ∧ b ≠ '-'.toUInt8 ∧ b ≠ '+'.toUInt8 ∧ b ≠ 'x'.toUInt8 ∧ b ≠ 'X'.toUInt8 ∧ b ≠ ':'.toUInt8 := by
  intro b
  rw [← UInt8.ofNat_toNat (x := b)]
  exact (by decide +kernel : ∀ n < 256, isDigit 16 (.ofNat n) = true → isSpace (.ofNat n) = false ∧
    UInt8.ofNat n ≠ '-'.toUInt8 ∧ UInt8.ofNat n ≠ '+'.toUInt8 ∧ UInt8.ofNat n ≠ 'x'.toUInt8 ∧
      UInt8.ofNat n ≠ 'X'.toUInt8 ∧ UInt8.ofNat n ≠ ':'.toUInt8) b.toNat b.toNat_lt

theorem digitsValue_digits (hpos : 0 < base) (hbase : base ≤ 16) (n v : Nat) :
    digitsValue base (digits base n v) = v % base ^ n := by
  induction n generalizing v with
  | zero => rw [Nat.pow_zero, Nat.mod_one]; rfl
  | succ n ih =>
    rw [digits, digitsValue, foldl_append]
    show digitsValue base (digits base n (v / base)) * base + (hexValue (digit (v % base))).getD 0 = _
    rw [ih, hexValue_digit _ ((Nat.mod_lt v hpos).trans_le hbase), Nat.pow_succ', Nat.mod_mul, Option.getD_some,
      Nat.mul_comm, Nat.add_comm]

theorem digitsValue_padded (hpos : 1 < base) (hbase : base ≤ 16) : digitsValue base (padded base width v) = v := by
  rw [padded, digitsValue_digits (Nat.zero_lt_of_lt hpos) hbase]
  exact Nat.mod_eq_of_lt ((Nat.lt_pow_succ_log_self hpos v).trans_le
    (Nat.pow_le_pow_right (Nat.zero_lt_of_lt hpos) (Nat.le_max_right _ _)))

theorem parseUint_padded (hbase : base = 10 ∨ base = 16) {limit : Nat} (hv : v < limit) :
    parseUint base limit (padded base width v) = some v := by
  have hall : (padded base width v).all (isDigit base) = true :=
    all_eq_true.mpr fun b hb => isDigit_of_mem_padded _ _ (by omega) (by omega) hb
  have hvalue := digitsValue_padded width v (by omega : 1 < base) (by omega)
  rw [parseUint, hvalue, if_pos ⟨padded_ne_nil _ _ _, hall, hv⟩]

theorem cut_append {r : List UInt8} (h : c ∉ l) : cut c (l ++ c :: r) = some (l, r) := by
  have hne : ∀ b ∈ l, decide (b ≠ c) = true := fun b hb => decide_eq_true fun heq => h (heq ▸ hb)
  rw [cut, if_pos (mem_append_right _ mem_cons_self), takeWhile_append_of_pos hne,
    dropWhile_append_of_pos hne, takeWhile_cons_of_neg (by simp), dropWhile_cons_of_neg (by simp),
    append_nil, tail_cons]

def Ends (c : UInt8) : Prop := c = 0x20 ∨ c = '-'.toUInt8 ∨ c = ':'.toUInt8

theorem scanULong_padded (hbase : base = 10 ∨ base = 16) (hv : v < 2 ^ 64) (hc : Ends c) :
    scanULong base (padded base width v ++ c :: l) = some (v, c :: l) := by
  have hpos : 1 < base := by omega
  have hle : base ≤ 16 := by omega
  have hdigit : ∀ b ∈ padded base width v, isDigit base b = true := fun b hb =>
    isDigit_of_mem_padded _ _ (Nat.zero_lt_of_lt hpos) hle hb
  have hplain : ∀ b, isDigit base b = true → isDigit 16 b = true := by
    intro b hb
    obtain ⟨d, hd, hlt⟩ := (Option.any_eq_true _ _).mp hb
    rw [isDigit, hd]
    exact decide_eq_true ((of_decide_eq_true hlt).trans_le hle)
  have hend : isDigit base c = false := by
    obtain rfl | rfl := hbase <;> obtain rfl | rfl | rfl := hc <;> decide
  have htake : (padded base width v ++ c :: l).takeWhile (isDigit base) = padded base width v := by
    rw [takeWhile_append_of_pos hdigit, takeWhile_cons_of_neg (by simp [hend]), append_nil]
  have hvalue := digitsValue_padded width v hpos hle
  obtain ⟨d, ds, hpad⟩ := exists_cons_of_ne_nil (padded_ne_nil base width v)
  obtain ⟨hspace, hminus, hplus, -⟩ := plain_of_isDigit (hplain d (hdigit d (hpad ▸ mem_cons_self)))
  -- a zero in front is followed by a digit or by the end of the number
  have hsecond : ∀ b, (padded base width v ++ c :: l)[1]? = some b → b ≠ 'x'.toUInt8 ∧ b ≠ 'X'.toUInt8 := by
    intro b hb
    rw [hpad] at hb hdigit
    cases ds with
    | nil =>
      cases hb
      obtain rfl | rfl | rfl := hc <;> decide
    | cons e ds =>
      cases hb
      obtain ⟨-, -, -, hx, hX, -⟩ := plain_of_isDigit (hplain b (hdigit b (by simp)))
      exact ⟨hx, hX⟩
  have hdrop : (padded base width v ++ c :: l).dropWhile isSpace = padded base width v ++ c :: l := by
    rw [hpad, cons_append, dropWhile_cons_of_neg (by simp [hspace])]
  have hhead : (padded base width v ++ c :: l).head? = some d := by rw [hpad]; rfl
  have hbare : ¬(base = 16 ∧ (padded base width v ++ c :: l)[0]? = some '0'.toUInt8 ∧
      ((padded base width v ++ c :: l)[1]? = some 'x'.toUInt8 ∨
        (padded base width v ++ c :: l)[1]? = some 'X'.toUInt8)) :=
    fun h => h.2.2.elim (fun hx => (hsecond _ hx).1 rfl) fun hX => (hsecond _ hX).2 rfl
  unfold scanULong
  simp only [hdrop, hhead, Option.some.injEq, hminus, hplus, or_self, if_false, if_neg hbare, htake, hvalue]
  rw [if_neg (padded_ne_nil _ _ _), if_neg (Nat.not_le.mpr hv), drop_left]

end Numbers

/-! ## One line -/

section Line

variable (v : Vma)

def Within (addr : UInt64) : Prop := v.start ≤ addr ∧ addr < v.limit

instance (addr : UInt64) : Decidable (Within v addr) := inferInstanceAs (Decidable (_ ∧ _))

/-- What the shim reads out of a line, whatever follows the columns. -/
def mapsFields : MapsFields where
  lo := v.start.toNat
  hi := v.limit.toNat
  major := v.major.toNat
  minor := v.minor.toNat
  inode := v.inode.toNat

theorem scanLiteral_self (c : UInt8) (l : List UInt8) : scanLiteral c (c :: l) = some l := if_pos rfl

theorem scanULong_blank (base : Nat) (l : List UInt8) : scanULong base (0x20 :: l) = scanULong base l := rfl

theorem scanWord_perms (l : List UInt8) : scanWord 7 (0x20 :: (v.perms ++ 0x20 :: l)) = some (0x20 :: l) := by
  have hplain : ∀ b ∈ v.perms, isSpace b = false := by
    intro b hb
    simp only [Vma.perms, mem_cons, not_mem_nil, or_false] at hb
    rcases hb with rfl | rfl | rfl | rfl <;> split <;> decide
  obtain ⟨a, b, c, d, hperms⟩ : ∃ a b c d, v.perms = [a, b, c, d] := ⟨_, _, _, _, rfl⟩
  rw [hperms] at hplain ⊢
  have ha := hplain a (by simp)
  have hb := hplain b (by simp)
  have hc := hplain c (by simp)
  have hd := hplain d (by simp)
  have hblank : isSpace 0x20 = true := by decide
  simp [scanWord, ha, hb, hc, hd, hblank]

theorem scanMapsLine_header (l : List UInt8) : scanMapsLine (v.header ++ l) = some (mapsFields v) := by
  have hnul : ∀ b ∈ v.header, decide (b ≠ 0) = true := by
    intro b hb
    obtain ⟨c, hc, hb⟩ := mem_flatMap.mp hb
    rcases mem_append.mp hb with hb | hb
    · exact decide_eq_true fun h => absurd ((v.columns_graphic c hc).2 b hb).1 (by rw [h]; decide)
    · rw [mem_singleton.mp hb]
      decide
  rw [scanMapsLine, takeWhile_append_of_pos hnul]
  generalize l.takeWhile _ = rest
  have hheader : v.header ++ rest = padded 16 8 v.start.toNat ++ '-'.toUInt8 :: (padded 16 8 v.limit.toNat ++
      0x20 :: (v.perms ++ 0x20 :: (padded 16 8 v.offset.toNat ++ 0x20 :: (padded 16 2 v.major.toNat ++
        ':'.toUInt8 :: (padded 16 2 v.minor.toNat ++ 0x20 :: (padded 10 1 v.inode.toNat ++ 0x20 :: rest)))))) := by
    simp [Vma.header, Vma.columns, Vma.range, Vma.dev]
  rw [hheader]
  have hsmall : ∀ w : UInt32, w.toNat < 2 ^ 64 := fun w => w.toNat_lt.trans (by decide)
  simp only [Option.bind_eq_bind, Option.bind_some, scanLiteral_self,
    scanULong_padded 8 _ (.inr rfl) v.start.toNat_lt (.inr (.inl rfl)),
    scanULong_padded 8 _ (.inr rfl) v.limit.toNat_lt (.inl rfl), scanWord_perms, scanULong_blank,
    scanULong_padded 8 _ (.inr rfl) v.offset.toNat_lt (.inl rfl),
    scanULong_padded 2 _ (.inr rfl) (hsmall v.major) (.inr (.inr rfl)),
    scanULong_padded 2 _ (.inr rfl) (hsmall v.minor) (.inl rfl),
    scanULong_padded 1 _ (.inl rfl) v.inode.toNat_lt (.inl rfl)]
  have hmajor := Nat.mod_eq_of_lt v.major.toNat_lt
  have hminor := Nat.mod_eq_of_lt v.minor.toNat_lt
  rw [hmajor, hminor]
  rfl

theorem within_iff {addr : UInt64} : Within v addr ↔ v.start.toNat ≤ addr.toNat ∧ addr.toNat < v.limit.toNat :=
  and_congr UInt64.le_iff_toNat_le UInt64.lt_iff_toNat_lt

theorem covering_header (addr : UInt64) (l : List UInt8) :
    covering addr (v.header ++ l) = if Within v addr then some (mapsFields v) else none := by
  rw [covering, scanMapsLine_header, Option.filter_some]
  simp only [within_iff, decide_eq_true_eq]
  rfl

theorem identityOf_line (addr : UInt64) : identityOf addr (dropCR v.line) =
    if Within v addr ∧ v.inode ≠ 0 then some (v.major.toNat, v.minor.toNat, v.inode.toNat) else none := by
  have hrange : parseMapsRange v.range = some (v.start.toNat, v.limit.toNat) := by
    have hdash : '-'.toUInt8 ∉ padded 16 8 v.start.toNat := fun h =>
      (plain_of_isDigit (isDigit_of_mem_padded _ _ (by decide) (by decide) h)).2.1 rfl
    rw [parseMapsRange, Vma.range, cut_append hdash]
    simp only [Option.bind_eq_bind, Option.bind_some, parseUint_padded 8 _ (.inr rfl) v.start.toNat_lt,
      parseUint_padded 8 _ (.inr rfl) v.limit.toNat_lt]
    rfl
  have hdev : parseMapsDev v.dev = some (v.major.toNat, v.minor.toNat) := by
    have hcolon : ':'.toUInt8 ∉ padded 16 2 v.major.toNat := fun h =>
      (plain_of_isDigit (isDigit_of_mem_padded _ _ (by decide) (by decide) h)).2.2.2.2.2 rfl
    rw [parseMapsDev, Vma.dev, cut_append hcolon]
    simp only [Option.bind_eq_bind, Option.bind_some, parseUint_padded 2 _ (.inr rfl) v.major.toNat_lt,
      parseUint_padded 2 _ (.inr rfl) v.minor.toNat_lt]
    rfl
  rw [identityOf, fields_dropCR, Vma.fields_line]
  simp only [Vma.columns, cons_append, nil_append, Option.bind_eq_bind, Option.bind_some, hrange, hdev,
    parseUint_padded 1 _ (.inl rfl) v.inode.toNat_lt]
  have hzero : v.inode.toNat = 0 ↔ v.inode = 0 := UInt64.toNat_inj (b := 0)
  simp only [within_iff, hzero]
  by_cases hin : v.start.toNat ≤ addr.toNat ∧ addr.toNat < v.limit.toNat
  · rw [if_neg (by omega)]
    by_cases hinode : v.inode = 0 <;> simp [hin, hinode]
  · rw [if_pos (by omega), if_neg fun h => hin h.1]

end Line

/-! ## The pieces of the lines -/

theorem fgetsFrom_line (piece l rest : List UInt8) :
    fgetsFrom piece (l ++ 10 :: rest) = fgetsFrom piece (l ++ [10]) ++ fgetsFrom [] rest := by
  induction l generalizing piece with
  | nil => simp [fgetsFrom]
  | cons b l ih =>
    rw [cons_append, cons_append, fgetsFrom, fgetsFrom, ih, ih]
    split <;> rfl

theorem fgetsFrom_append {piece l : List UInt8} (hline : 10 ∉ l) (hlen : piece.length + l.length < lineRoom)
    (rest : List UInt8) : fgetsFrom piece (l ++ rest) = fgetsFrom (piece ++ l) rest := by
  induction l generalizing piece with
  | nil => rw [append_nil, nil_append]
  | cons b l ih =>
    rw [mem_cons, not_or] at hline
    rw [length_cons] at hlen
    have hmore : ¬(b = 10 ∨ piece.length + 1 = lineRoom) := fun h => h.elim (Ne.symm hline.1) (by omega)
    rw [cons_append, fgetsFrom, if_neg hmore, ih hline.2 (by rw [List.length_append, length_singleton]; omega),
      append_assoc, singleton_append]

theorem fgetsFrom_begins {piece : List UInt8} (hne : piece ≠ []) (l : List UInt8) :
    ∃ t more, fgetsFrom piece l = (piece ++ t) :: more := by
  induction l generalizing piece with
  | nil => exact ⟨[], [], by rw [fgetsFrom, if_neg hne, append_nil]⟩
  | cons b l ih =>
    rw [fgetsFrom]
    split
    · exact ⟨[b], _, rfl⟩
    · obtain ⟨t, more, h⟩ := ih (append_ne_nil_of_right_ne_nil piece (cons_ne_nil b []))
      exact ⟨b :: t, more, by rw [h, append_assoc, singleton_append]⟩

theorem length_padded_le {base width n v : Nat} (hwidth : width ≤ n) (hn : n ≠ 0) (hv : v < base ^ n) :
    (padded base width v).length ≤ n := by
  have hlog := Nat.log_lt_of_lt_pow' hn hv
  rw [padded, length_digits]
  omega

theorem length_header_lt (v : Vma) : v.header.length < lineRoom := by
  have hlong : ∀ w : UInt64, (padded 16 8 w.toNat).length ≤ 16 := fun w =>
    length_padded_le (by decide) (by decide) w.toNat_lt
  have hshort : ∀ w : UInt32, (padded 16 2 w.toNat).length ≤ 8 := fun w =>
    length_padded_le (by decide) (by decide) w.toNat_lt
  have hinode : (padded 10 1 v.inode.toNat).length ≤ 20 :=
    length_padded_le (by decide) (by decide) (v.inode.toNat_lt.trans (by decide))
  have hstart := hlong v.start
  have hlimit := hlong v.limit
  have hoffset := hlong v.offset
  have hmajor := hshort v.major
  have hminor := hshort v.minor
  simp only [Vma.header, Vma.columns, Vma.range, Vma.dev, Vma.perms, flatMap_cons, flatMap_nil,
    List.length_append, length_cons, length_nil, lineRoom]
  omega

def pieces (v : Vma) : List (List UInt8) := fgetsFrom [] (v.line ++ [10])

theorem pieces_eq (v : Vma) : ∃ t, pieces v = (v.header ++ t) :: (pieces v).tail := by
  have hheader : 10 ∉ v.header := fun h => v.newline_notMem_line (mem_append_left _ h)
  have hne : v.header ≠ [] := by simp [Vma.header, Vma.columns]
  obtain ⟨t, more, h⟩ := fgetsFrom_begins hne ((if v.backing.text = [] then [] else
    List.replicate (72 - v.header.length) 0x20 ++ 0x20 :: v.backing.text) ++ [10])
  have hpieces : pieces v = (v.header ++ t) :: more := by
    rw [pieces, Vma.line, append_assoc, fgetsFrom_append hheader (by simpa using length_header_lt v)]
    exact h
  exact ⟨t, by rw [hpieces, tail_cons]⟩

def strays (vs : List Vma) : List (List UInt8) := vs.flatMap fun u => (pieces u).tail

theorem findSome_pieces {before : List Vma} {v : Vma} {addr : UInt64} (hbefore : ∀ u ∈ before, ¬Within u addr)
    (hin : Within v addr) (rest : List UInt8) :
    (fgetsFrom [] (unlines (before.map Vma.line) ++ (v.line ++ 10 :: rest))).findSome? (covering addr) =
      some (((strays before).findSome? (covering addr)).getD (mapsFields v)) := by
  induction before with
  | nil =>
    obtain ⟨t, ht⟩ := pieces_eq v
    show (fgetsFrom [] (v.line ++ 10 :: rest)).findSome? _ = some (mapsFields v)
    rw [fgetsFrom_line, findSome?_append]
    change ((pieces v).findSome? _).or _ = _
    rw [ht, findSome?_cons_of_isSome (by simp [covering_header, hin]), covering_header, if_pos hin]
    rfl
  | cons u before ih =>
    obtain ⟨hu, hbefore⟩ := forall_mem_cons.mp hbefore
    obtain ⟨t, ht⟩ := pieces_eq u
    have hsplit : unlines ((u :: before).map Vma.line) ++ (v.line ++ 10 :: rest) =
        u.line ++ 10 :: (unlines (before.map Vma.line) ++ (v.line ++ 10 :: rest)) := by
      simp [unlines]
    rw [hsplit, fgetsFrom_line, findSome?_append, ih hbefore]
    change ((pieces u).findSome? _).or _ = some ((((pieces u).tail ++ strays before).findSome? _).getD _)
    rw [ht, findSome?_cons_of_isNone (by simp [covering_header, hu]), tail_cons, findSome?_append]
    cases (pieces u).tail.findSome? (covering addr) <;> rfl

/-! ## The two names -/

theorem decimal_inj {a b : Nat} (h : decimal a = decimal b) : a = b := by
  have hvalue := congrArg (digitsValue 10) h
  rwa [decimal, decimal, digitsValue_padded _ _ (by decide) (by decide),
    digitsValue_padded _ _ (by decide) (by decide)] at hvalue

theorem dot_notMem_decimal (a : Nat) : '.'.toUInt8 ∉ decimal a := fun h =>
  absurd (isDigit_of_mem_padded _ _ (by decide) (by decide) h) (by decide)

theorem enrollName_inj {a b c a' b' c' : Nat} (h : enrollName a b c = enrollName a' b' c') :
    a = a' ∧ b = b' ∧ c = c' := by
  rw [enrollName, enrollName, append_assoc, append_assoc] at h
  have hfirst := congrArg (cut '.'.toUInt8) (append_cancel_left h)
  rw [cut_append (dot_notMem_decimal a), cut_append (dot_notMem_decimal a')] at hfirst
  obtain ⟨ha, hrest⟩ := Prod.mk.inj (Option.some.inj hfirst)
  have hsecond := congrArg (cut '.'.toUInt8) hrest
  rw [cut_append (dot_notMem_decimal b), cut_append (dot_notMem_decimal b')] at hsecond
  obtain ⟨hb, hc⟩ := Prod.mk.inj (Option.some.inj hsecond)
  exact ⟨decimal_inj ha, decimal_inj hb, decimal_inj hc⟩

theorem length_enrollName_lt (v : Vma) : (enrollName v.major.toNat v.minor.toNat v.inode.toNat).length < 67 := by
  have hshort : ∀ w : UInt32, (decimal w.toNat).length ≤ 10 := fun w =>
    length_padded_le (by decide) (by decide) (w.toNat_lt.trans (by decide))
  have hinode : (decimal v.inode.toNat).length ≤ 20 :=
    length_padded_le (by decide) (by decide) (v.inode.toNat_lt.trans (by decide))
  have hmajor := hshort v.major
  have hminor := hshort v.minor
  have hprefix : (ascii "perfagent-gpu-enroll.v1.").length = 24 := by decide +kernel
  simp only [enrollName, List.length_append, length_cons, hprefix]
  omega

structure Devices.Faithful (d : Devices) : Prop where
  major_mkdev : ∀ a b, d.major (d.mkdev a b) = a
  minor_mkdev : ∀ a b, d.minor (d.mkdev a b) = b

/-- What both of them look at: the lines before the mapping of the address, and its own. -/
structure Lookup (k : KernelMaps) (addr : UInt64) (before after : List Vma) (v : Vma) : Prop where
  vmas : k.vmas = before ++ v :: after
  paths : ∀ u ∈ k.vmas, u.backing.text.length ≤ 4095 + deletedMarker.length
  within : Within v addr
  file : v.inode ≠ 0

section Lookup

variable {k : KernelMaps} {addr : UInt64} {before after : List Vma} {v : Vma} (h : Lookup k addr before after v)
  (d : Devices)
include h

theorem Lookup.not_within : ∀ u ∈ before, ¬Within u addr := by
  intro u hu hu'
  have hdisjoint := h.vmas ▸ k.disjoint
  have happart := (pairwise_append.mp hdisjoint).2.2 u hu v mem_cons_self
  have hlt := UInt64.lt_iff_toNat_lt.mp h.within.2
  have hlt' := UInt64.lt_iff_toNat_lt.mp hu'.2
  have hle := UInt64.le_iff_toNat_le.mp h.within.1
  have hle' := UInt64.le_iff_toNat_le.mp hu'.1
  obtain hap | hap := happart <;> have hap := UInt64.le_iff_toNat_le.mp hap <;> omega

theorem Lookup.enrollShimIdentity_eq : enrollShimIdentity d k.text addr = .ok (d.mkdev v.major v.minor, v.inode) := by
  have hlines : ∀ line ∈ k.vmas.map Vma.line, 10 ∉ line ∧ line.length < maxScanTokenSize := by
    intro line hline
    obtain ⟨u, hu, rfl⟩ := mem_map.mp hline
    have hheader := length_header_lt u
    have hpath := h.paths u hu
    refine ⟨u.newline_notMem_line, ?_⟩
    rw [Vma.line, List.length_append]
    unfold lineRoom at hheader
    split
    · exact (by decide : 4095 ≤ maxScanTokenSize).trans_lt' (by simpa using hheader)
    · rw [List.length_append, length_replicate, length_cons]
      have hmarker : deletedMarker.length = 10 := rfl
      show _ < 64 * 1024
      omega
  have hfound : (scanLines maxScanTokenSize k.text).1.findSome? (identityOf addr) =
      some (v.major.toNat, v.minor.toNat, v.inode.toNat) := by
    rw [KernelMaps.text, scanLines_unlines hlines, h.vmas]
    simp only [map_append, map_cons, map_map, findSome?_append]
    have hnone : (before.map (dropCR ∘ Vma.line)).findSome? (identityOf addr) = none := by
      rw [findSome?_eq_none_iff]
      intro line hline
      obtain ⟨u, hu, rfl⟩ := mem_map.mp hline
      exact (identityOf_line u addr).trans (if_neg fun hin => h.not_within u hu hin.1)
    rw [hnone, Option.none_or, findSome?_cons, identityOf_line, if_pos ⟨h.within, h.file⟩]
  unfold enrollShimIdentity
  simp only [hfound, UInt32.ofNat_toNat, UInt64.ofNat_toNat]

theorem Lookup.enrollNameFromMaps_eq (outsz : Nat) : enrollNameFromMaps k.text addr outsz =
    (some (((strays before).findSome? (covering addr)).getD (mapsFields v))).bind fun f =>
      if f.inode = 0 then none
      else
        let name := enrollName f.major f.minor f.inode
        if name.length < outsz then some name else none := by
  have htext : k.text = unlines (before.map Vma.line) ++ (v.line ++ 10 :: unlines (after.map Vma.line)) := by
    simp [KernelMaps.text, h.vmas, unlines]
  rw [enrollNameFromMaps, htext, findSome_pieces h.not_within h.within]
  rfl

/-- The names are the same just where the first stray line that covers the address, if there is one, is of the same
file. -/
theorem names_agree_iff (hd : d.Faithful) {outsz : Nat} (houtsz : 67 ≤ outsz) :
    (∃ dev inode, enrollShimIdentity d k.text addr = .ok (dev, inode) ∧
      enrollNameFromMaps k.text addr outsz = some (enrollAddressFor d dev inode).tail) ↔
        ∀ f, (strays before).findSome? (covering addr) = some f →
          f.major = v.major.toNat ∧ f.minor = v.minor.toNat ∧ f.inode = v.inode.toNat := by
  have hname : (enrollAddressFor d (d.mkdev v.major v.minor) v.inode).tail =
      enrollName v.major.toNat v.minor.toNat v.inode.toNat := by
    rw [enrollAddressFor, hd.major_mkdev, hd.minor_mkdev, tail_cons]
  rw [h.enrollShimIdentity_eq, h.enrollNameFromMaps_eq]
  simp only [Except.ok.injEq, Prod.mk.injEq, Option.bind_some]
  constructor
  · rintro ⟨dev, inode, ⟨rfl, rfl⟩, hnames⟩ f hf
    simp only [hf, Option.getD_some, hname] at hnames
    split at hnames
    · cases hnames
    · split at hnames
      · exact enrollName_inj (Option.some.inj hnames)
      · cases hnames
  · intro hstray
    refine ⟨_, _, ⟨rfl, rfl⟩, ?_⟩
    have hsame : (((strays before).findSome? (covering addr)).getD (mapsFields v)).major = v.major.toNat ∧
        (((strays before).findSome? (covering addr)).getD (mapsFields v)).minor = v.minor.toNat ∧
          (((strays before).findSome? (covering addr)).getD (mapsFields v)).inode = v.inode.toNat := by
      cases hf : (strays before).findSome? (covering addr) with
      | none => exact ⟨rfl, rfl, rfl⟩
      | some f => exact hstray f hf
    obtain ⟨hmajor, hminor, hino⟩ := hsame
    have hzero : v.inode.toNat ≠ 0 := fun hzero => h.file (UInt64.toNat_inj.mp hzero)
    have hfits := (length_enrollName_lt v).trans_le houtsz
    rw [hmajor, hminor, hino, hname, if_neg hzero, if_pos hfits]

end Lookup

/-! ## A path that comes as a line -/

def unixDevices : Devices where
  mkdev a b :=
    let a : UInt64 := a.toUInt64
    let b : UInt64 := b.toUInt64
    UInt64.shiftLeft (a &&& 0xfff) 8 ||| UInt64.shiftLeft (a &&& 0xfffff000) 32 ||| (b &&& 0xff) |||
      UInt64.shiftLeft (b &&& 0xffffff00) 12
  major dev :=
    (UInt64.shiftRight (dev &&& 0xfff00) 8).toUInt32 ||| (UInt64.shiftRight (dev &&& 0xfffff00000000000) 32).toUInt32
  minor dev := (dev &&& 0xff).toUInt32 ||| (UInt64.shiftRight (dev &&& 0xffffff00000) 12).toUInt32

theorem unixDevices_faithful : unixDevices.Faithful := by
  have hleft : ∀ a b : UInt64, a.shiftLeft b = a <<< b := fun _ _ => rfl
  have hright : ∀ a b : UInt64, a.shiftRight b = a >>> b := fun _ _ => rfl
  constructor <;> intro a b <;> refine UInt32.toBitVec_inj.mp (BitVec.eq_of_getLsbD_eq fun i hi => ?_) <;>
    interval_cases i <;> simp [unixDevices, hleft, hright]

def strayPath : List UInt8 :=
  (List.replicate 2011 (ascii "/a")).flatten ++ ascii "0-ffffffffffffffff r-xp 0 0:0 5"

theorem newline_notMem_strayPath : 10 ∉ (Backing.file strayPath false).text := by
  decide +kernel

theorem newline_notMem_shimPath : 10 ∉ (Backing.file (ascii "/lib/shim.so") false).text := by
  decide +kernel

theorem strayVma_lt : (0x1000 : UInt64) < 0x2000 := by
  decide

theorem shimVma_lt : (0x2000 : UInt64) < 0x3000 := by
  decide

def strayVma : Vma where
  start := 0x1000
  limit := 0x2000
  offset := 0
  read := true
  write := false
  exec := true
  shared := false
  major := 8
  minor := 1
  inode := 6
  backing := .file strayPath false
  start_lt := strayVma_lt
  oneLine := newline_notMem_strayPath

def shimVma : Vma :=
  { strayVma with
    start := 0x2000
    limit := 0x3000
    inode := 7
    backing := .file (ascii "/lib/shim.so") false
    start_lt := shimVma_lt
    oneLine := newline_notMem_shimPath }

theorem strayVmas_disjoint : [strayVma, shimVma].Pairwise fun a b => a.limit ≤ b.start ∨ b.limit ≤ a.start :=
  pairwise_pair.mpr (.inl (UInt64.le_refl 0x2000))

def shimMaps : KernelMaps where
  vmas := [shimVma]
  disjoint := pairwise_singleton _ _

def strayMaps : KernelMaps where
  vmas := [strayVma, shimVma]
  disjoint := strayVmas_disjoint

theorem strayMaps_lookup : Lookup strayMaps 0x2000 [strayVma] [] shimVma where
  vmas := rfl
  paths := by
    have hlengths : strayPath.length = 4053 := by decide +kernel
    refine forall_mem_cons.mpr ⟨?_, forall_mem_singleton.mpr (by decide +kernel)⟩
    show (strayPath ++ []).length ≤ _
    rw [append_nil, hlengths]
    decide
  within := by decide
  file := by decide

theorem strays_strayVma : strays [strayVma] = [ascii "0-ffffffffffffffff r-xp 0 0:0 5" ++ [10]] := by
  have hlength : strayVma.line.length = 4126 := by decide +kernel
  have hdrop : strayVma.line.drop 4094 = 'a'.toUInt8 :: ascii "0-ffffffffffffffff r-xp 0 0:0 5" := by decide +kernel
  have htake : 10 ∉ strayVma.line.take 4094 := fun h => strayVma.newline_notMem_line (mem_of_mem_take h)
  have hfull : (strayVma.line.take 4094).length = 4094 := by rw [length_take, hlength]; decide
  have hroom : ([] : List UInt8).length + (strayVma.line.take 4094).length < lineRoom := by rw [hfull]; decide
  have hsplit : strayVma.line ++ [10] = strayVma.line.take 4094 ++ (strayVma.line.drop 4094 ++ [10]) := by
    rw [← append_assoc, take_append_drop]
  have hpieces : pieces strayVma = fgetsFrom (strayVma.line.take 4094) (strayVma.line.drop 4094 ++ [10]) :=
    (congrArg (fgetsFrom []) hsplit).trans (fgetsFrom_append htake hroom _)
  have hstrays : strays [strayVma] = (pieces strayVma).tail := append_nil _
  rw [hstrays, hpieces, hdrop, cons_append, fgetsFrom, if_pos (.inr (by rw [hfull]; rfl)), tail_cons]
  decide +kernel

/-- The path of the mapping before ends in what the shim takes for a line of the address. -/
theorem names_differ : Lookup strayMaps 0x2000 [strayVma] [] shimVma ∧ unixDevices.Faithful ∧
    enrollShimIdentity unixDevices strayMaps.text 0x2000 = .ok (unixDevices.mkdev 8 1, 7) ∧
      enrollNameFromMaps strayMaps.text 0x2000 108 = some (enrollName 0 0 5) ∧
        enrollName 0 0 5 ≠ (enrollAddressFor unixDevices (unixDevices.mkdev 8 1) 7).tail := by
  refine ⟨strayMaps_lookup, unixDevices_faithful, strayMaps_lookup.enrollShimIdentity_eq _, ?_, by decide +kernel⟩
  rw [strayMaps_lookup.enrollNameFromMaps_eq, strays_strayVma]
  decide +kernel

theorem names_agree_alone : ∃ dev inode, enrollShimIdentity unixDevices shimMaps.text 0x2000 = .ok (dev, inode) ∧
    enrollNameFromMaps shimMaps.text 0x2000 108 = some (enrollAddressFor unixDevices dev inode).tail :=
  (names_agree_iff (⟨rfl, by decide +kernel, by decide, by decide⟩ : Lookup shimMaps 0x2000 [] [] shimVma) unixDevices
    unixDevices_faithful (by decide : 67 ≤ 108)).mpr fun _ hf => nomatch hf

end PerfAgent.Shim
