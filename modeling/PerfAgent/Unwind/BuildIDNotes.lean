import PerfAgent.Lib.LittleEndian
import PerfAgent.Lib.Slices

/-!
# The two readers of a build id

`extractGNUBuildID` of `unwind/ehmaps/elf_helpers.go` keys the unwind tables, and `parseBuildIDNote`
of `unwind/procmap/buildid.go` the mappings of a profile.  Both walk the notes of an ELF note section,
the first one with 64-bit sums and the second one with sizes that are padded in 32 bits.
-/

namespace PerfAgent.Unwind.BuildIDNotes

open List

/-- `b[lo:hi]` of the contents of a section, which have no capacity past their end. -/
def sliceBytes {ε : Type} (b : List UInt8) (lo hi : Nat) : Outcome ε (List UInt8) :=
  if lo ≤ hi ∧ hi ≤ b.length then .ok ((b.drop lo).take (hi - lo)) else .panic

/-- `binary.LittleEndian.Uint32(b[lo:lo+4])`. -/
def uint32At {ε : Type} (b : List UInt8) (lo : Nat) : Outcome ε UInt32 := do
  return UInt32.ofNat (leValue (← sliceBytes b lo (lo + 4)))

/-- `"GNU"`. -/
def gnu : List UInt8 := [71, 78, 85]

/-! ## `ehmaps.extractGNUBuildID` -/

/-- `(n + 3) &^ 3`. -/
def roundUp (n : Nat) : Nat := (n + 3) / 4 * 4

/-- `string(notes[p:p+3]) == "GNU"`, which is only looked at for a note of the right type and name size. -/
def looksGNU (noteType nameSize : UInt32) (notes : List UInt8) (p : Nat) : Outcome Empty Bool :=
  if noteType = 3 ∧ nameSize = 4 then do
    return (← sliceBytes notes p (p + 3)) == gnu
  else return false

def extractGNUBuildIDLoop : Nat → List UInt8 → Outcome Empty (Option (List UInt8))
  | 0, notes => if 12 ≤ notes.length then .outOfFuel else .ok none
  | fuel + 1, notes =>
    if 12 ≤ notes.length then do
      let nameSize ← uint32At notes 0
      let descSize ← uint32At notes 4
      let noteType ← uint32At notes 8
      let nameEnd := 12 + nameSize.toNat
      let namePadded := roundUp nameEnd
      if notes.length < namePadded then return none
      else
        let descEnd := namePadded + descSize.toNat
        let descPadded := roundUp descEnd
        if notes.length < descPadded then return none
        else do
          if ← looksGNU noteType nameSize notes 12 then return some (← sliceBytes notes namePadded descEnd)
          else extractGNUBuildIDLoop fuel (← sliceBytes notes descPadded notes.length)
    else .ok none

def extractGNUBuildID (notes : List UInt8) : Outcome Empty (Option (List UInt8)) :=
  extractGNUBuildIDLoop notes.length notes

/-! ## `procmap.parseBuildIDNote` -/

def ntGNUBuildID : UInt32 := 3

/-- `"GNU\x00"`. -/
def gnuName : List UInt8 := [71, 78, 85, 0]

inductive NoteError where
  | headerTruncated
  | nameTruncated
  | descTruncated
deriving DecidableEq

def NoteError.text : NoteError → String
  | .headerTruncated => "note header truncated"
  | .nameTruncated => "note name truncated"
  | .descTruncated => "note desc truncated"

def alignUp (n a : UInt32) : UInt32 := (n + a - 1) &&& ~~~(a - 1)

def hexDigit (n : Nat) : Char := "0123456789abcdef".toList.getD n '0'

/-- `hex.EncodeToString`. -/
def encodeToString (b : List UInt8) : List Char :=
  b.flatMap fun x => [hexDigit (x.toNat / 16), hexDigit (x.toNat % 16)]

/-- A field of a note: its bytes, and what follows it and its padding. -/
def takePadded (err : NoteError) (size : UInt32) (data : List UInt8) : Outcome NoteError (List UInt8 × List UInt8) :=
  let fieldEnd := (alignUp size 4).toNat
  if data.length < fieldEnd then .error err
  else do
    let field ← sliceBytes data 0 size.toNat
    let data ← sliceBytes data fieldEnd data.length
    return (field, data)

def parseBuildIDNoteLoop : Nat → List UInt8 → Outcome NoteError (List Char)
  | 0, data => if 0 < data.length then .outOfFuel else .ok []
  | fuel + 1, data =>
    if 0 < data.length then
      if data.length < 12 then .error .headerTruncated
      else do
        let namesz ← uint32At data 0
        let descsz ← uint32At data 4
        let typ ← uint32At data 8
        let data ← sliceBytes data 12 data.length
        let (name, data) ← takePadded .nameTruncated namesz data
        let (desc, data) ← takePadded .descTruncated descsz data
        if typ = ntGNUBuildID ∧ name = gnuName then return encodeToString desc
        else parseBuildIDNoteLoop fuel data
    else .ok []

def parseBuildIDNote (data : List UInt8) : Outcome NoteError (List Char) :=
  parseBuildIDNoteLoop data.length data

/-! ## The notes of a section -/

structure Note where
  typ : UInt32
  name : List UInt8
  desc : List UInt8
deriving DecidableEq

namespace Note

/-- What `extractGNUBuildID` takes for the note of the build id. -/
def looks (n : Note) : Bool := n.typ == 3 && (n.name.length == 4 && n.name.take 3 == gnu)

/-- What `parseBuildIDNote` takes for it. -/
def named (n : Note) : Bool := n.typ == 3 && n.name == gnuName

theorem looks_of_named {n : Note} (h : n.named = true) : n.looks = true := by
  unfold named at h
  rw [Bool.and_eq_true, beq_iff_eq, beq_iff_eq] at h
  rw [looks, h.1, h.2]
  rfl

end Note

def Pads (size : Nat) : Prop := size + 3 < 2 ^ 32

instance (size : Nat) : Decidable (Pads size) := inferInstanceAs (Decidable (_ < _))

def Note.Fits (n : Note) : Prop := Pads n.name.length ∧ Pads n.desc.length

instance (n : Note) : Decidable n.Fits := inferInstanceAs (Decidable (_ ∧ _))

def word (b : List UInt8) (off : Nat) : UInt32 := UInt32.ofNat (leAt b off 4)

def nameSize (b : List UInt8) : Nat := (word b 0).toNat
def descSize (b : List UInt8) : Nat := (word b 4).toNat

def readNote (b : List UInt8) : Option (Note × List UInt8) :=
  if 12 ≤ b.length ∧ 12 + roundUp (nameSize b) + roundUp (descSize b) ≤ b.length then
    some
      ({ typ := word b 8
         name := (b.drop 12).take (nameSize b)
         desc := (b.drop (12 + roundUp (nameSize b))).take (descSize b) },
        b.drop (12 + roundUp (nameSize b) + roundUp (descSize b)))
  else none

def notesLoop : Nat → List UInt8 → List Note × List UInt8
  | 0, b => ([], b)
  | fuel + 1, b =>
    match readNote b with
    | none => ([], b)
    | some (n, rest) => (n :: (notesLoop fuel rest).1, (notesLoop fuel rest).2)

def notes (b : List UInt8) : List Note := (notesLoop b.length b).1

def leftover (b : List UInt8) : List UInt8 := (notesLoop b.length b).2

/-- The header of a note that is cut off: the name can be padded, and if all of it is there the
description can be padded too. -/
def HeaderPads (b : List UInt8) : Prop :=
  12 ≤ b.length → Pads (nameSize b) ∧ (12 + roundUp (nameSize b) ≤ b.length → Pads (descSize b))

instance (b : List UInt8) : Decidable (HeaderPads b) := inferInstanceAs (Decidable (_ → _))

theorem le_roundUp (n : Nat) : n ≤ roundUp n := by
  unfold roundUp
  omega

section ReadNote

variable {b rest : List UInt8} {n : Note}

theorem readNote_eq_some (h : readNote b = some (n, rest)) :
    12 + roundUp (nameSize b) + roundUp (descSize b) ≤ b.length ∧
      n = ⟨word b 8, (b.drop 12).take (nameSize b), (b.drop (12 + roundUp (nameSize b))).take (descSize b)⟩ ∧
      rest = b.drop (12 + roundUp (nameSize b) + roundUp (descSize b)) := by
  unfold readNote at h
  split at h
  · next hlen =>
    cases h
    exact ⟨hlen.2, rfl, rfl⟩
  · cases h

theorem readNote_eq_none (h : readNote b = none) : b.length < 12 + roundUp (nameSize b) + roundUp (descSize b) := by
  unfold readNote at h
  split at h
  · cases h
  · next hlen => omega

theorem length_name (h : readNote b = some (n, rest)) : n.name.length = nameSize b := by
  obtain ⟨hlen, rfl, -⟩ := readNote_eq_some h
  have := le_roundUp (nameSize b)
  simp only [length_take, length_drop]
  omega

theorem length_desc (h : readNote b = some (n, rest)) : n.desc.length = descSize b := by
  obtain ⟨hlen, rfl, -⟩ := readNote_eq_some h
  have := le_roundUp (descSize b)
  simp only [length_take, length_drop]
  omega

theorem length_rest (h : readNote b = some (n, rest)) : rest.length + 12 ≤ b.length := by
  obtain ⟨hlen, -, rfl⟩ := readNote_eq_some h
  rw [length_drop]
  omega

theorem fits_of_readNote (h : readNote b = some (n, rest)) (hlt : b.length < 2 ^ 32) : n.Fits := by
  have hname := length_name h
  have hdesc := length_desc h
  obtain ⟨hlen, -, -⟩ := readNote_eq_some h
  unfold roundUp at hlen
  unfold Note.Fits Pads
  omega

end ReadNote

/-! ### Reading -/

section Reading

variable {ε : Type} {b : List UInt8}

theorem sliceBytes_eq {lo hi : Nat} (h : lo ≤ hi) (hhi : hi ≤ b.length) :
    (sliceBytes b lo hi : Outcome ε _) = .ok ((b.drop lo).take (hi - lo)) := if_pos ⟨h, hhi⟩

theorem sliceBytes_right {lo : Nat} (h : lo ≤ b.length) :
    (sliceBytes b lo b.length : Outcome ε _) = .ok (b.drop lo) := by
  rw [sliceBytes_eq h (Nat.le_refl _), take_of_length_le (by rw [length_drop])]

theorem sliceBytes_left {hi : Nat} (h : hi ≤ b.length) : (sliceBytes b 0 hi : Outcome ε _) = .ok (b.take hi) :=
  sliceBytes_eq (Nat.zero_le hi) h

theorem uint32At_eq {off : Nat} (h : off + 4 ≤ b.length) : (uint32At b off : Outcome ε _) = .ok (word b off) := by
  unfold uint32At
  rw [sliceBytes_eq (Nat.le_add_right off 4) h, Nat.add_sub_cancel_left]
  rfl

end Reading

/-! ## What the first reader finds -/

theorem roundUp_header (n : Nat) : roundUp (12 + n) = 12 + roundUp n := by
  unfold roundUp
  omega

theorem roundUp_add (m n : Nat) : roundUp (roundUp m + n) = roundUp m + roundUp n := by
  unfold roundUp
  omega

theorem looksGNU_eq {b rest : List UInt8} {n : Note} (h : readNote b = some (n, rest)) :
    looksGNU (word b 8) (word b 0) b 12 = .ok n.looks := by
  have hname := length_name h
  obtain ⟨hlen, heq, -⟩ := readNote_eq_some h
  have htyp : n.typ = word b 8 := by rw [heq]
  unfold looksGNU Note.looks
  split
  · next hid =>
    have hsize : nameSize b = 4 := by rw [nameSize, hid.2]; rfl
    have hpad := le_roundUp (nameSize b)
    have htake : n.name.take 3 = (b.drop 12).take 3 := by rw [heq, hsize, take_take]; rfl
    rw [sliceBytes_eq (by omega) (by omega), htyp, hid.1, hname, hsize, htake]
    rfl
  · next hid =>
    have hsize : (word b 8 == 3 && nameSize b == 4) = false := by
      rw [Bool.and_eq_false_iff, beq_eq_false_iff_ne, beq_eq_false_iff_ne]
      by_contra hboth
      push Not at hboth
      exact hid ⟨hboth.1, UInt32.toNat_inj.mp hboth.2⟩
    rw [htyp, hname, ← Bool.and_assoc, hsize]
    rfl

theorem extractGNUBuildIDLoop_succ (fuel : Nat) (b : List UInt8) : extractGNUBuildIDLoop (fuel + 1) b =
      match readNote b with
      | none => .ok none
      | some (n, rest) => if n.looks then .ok (some n.desc) else extractGNUBuildIDLoop fuel rest := by
  rw [extractGNUBuildIDLoop]
  split
  · next hheader =>
    rw [uint32At_eq (by omega), uint32At_eq (by omega), uint32At_eq (by omega)]
    dsimp only [Bind.bind]
    rw [roundUp_header, ← nameSize]
    have hdesc : roundUp (12 + roundUp (nameSize b) + (word b 4).toNat) =
        12 + roundUp (nameSize b) + roundUp (descSize b) := by
      rw [Nat.add_assoc, roundUp_header, roundUp_add, descSize, Nat.add_assoc]
    rw [hdesc]
    cases hread : readNote b with
    | none =>
      have hlen := readNote_eq_none hread
      split
      · rfl
      · rfl
    | some p =>
      obtain ⟨n, rest⟩ := p
      obtain ⟨hlen, hn, hrest⟩ := readNote_eq_some hread
      have hpad := le_roundUp (descSize b)
      rw [if_neg (by omega), if_neg (by omega), looksGNU_eq hread]
      dsimp only
      split
      · rw [sliceBytes_eq (by omega) (by rw [← descSize]; omega), Nat.add_sub_cancel_left, hn]
        rfl
      · rw [sliceBytes_right (by omega), hrest]
  · next hheader =>
    have hnone : readNote b = none := if_neg fun h => hheader h.1
    rw [hnone]

theorem extractGNUBuildIDLoop_eq (fuel : Nat) (b : List UInt8) (h : b.length ≤ fuel) :
    extractGNUBuildIDLoop fuel b = .ok (((notesLoop fuel b).1.find? Note.looks).map Note.desc) := by
  induction fuel generalizing b with
  | zero => exact if_neg (by omega)
  | succ fuel ih =>
    rw [extractGNUBuildIDLoop_succ, notesLoop]
    cases hread : readNote b with
    | none => rfl
    | some p =>
      obtain ⟨n, rest⟩ := p
      have hrest := length_rest hread
      dsimp only
      rw [find?_cons]
      cases n.looks with
      | true => rfl
      | false => exact ih rest (by omega)

theorem extractGNUBuildID_eq (b : List UInt8) :
    extractGNUBuildID b = .ok (((notes b).find? Note.looks).map Note.desc) :=
  extractGNUBuildIDLoop_eq b.length b (Nat.le_refl _)

/-! ## What the second reader finds -/

theorem and_not_three {x : Nat} (h : x < 2 ^ 32) : x &&& 4294967292 = x / 4 * 4 := by
  have hmask : (4294967292 : Nat) = (2 ^ 30 - 1) <<< 2 := by decide
  have hquot : x / 4 * 4 = (x >>> 2) <<< 2 := by rw [Nat.shiftRight_eq_div_pow, Nat.shiftLeft_eq]
  apply Nat.eq_of_testBit_eq
  intro i
  rw [hmask, hquot, Nat.testBit_and, Nat.testBit_shiftLeft, Nat.testBit_shiftLeft, Nat.testBit_shiftRight,
    Nat.testBit_two_pow_sub_one]
  by_cases hi : 2 ≤ i
  · have hsub : 2 + (i - 2) = i := by omega
    by_cases hlt : i < 32
    · have : i - 2 < 30 := by omega
      simp [hi, this]
    · have hle : 2 ^ 32 ≤ 2 ^ i := Nat.pow_le_pow_right (by decide) (by omega)
      have hzero : x.testBit i = false := Nat.testBit_lt_two_pow (by omega)
      simp [hsub, hzero]
  · simp [hi]

theorem toNat_alignUp (n : UInt32) : (alignUp n 4).toNat = (n.toNat + 3) % 2 ^ 32 / 4 * 4 := by
  have hadd : n + 4 - 1 = n + 3 := by grind
  have hmask : ~~~((4 : UInt32) - 1) = 4294967292 := by decide
  have hsum : (n + 3).toNat = (n.toNat + 3) % 2 ^ 32 := UInt32.toNat_add n 3
  rw [alignUp, hadd, hmask, UInt32.toNat_and, hsum]
  exact and_not_three (Nat.mod_lt _ (by decide))

theorem alignUp_of_pads {n : UInt32} (h : Pads n.toNat) : (alignUp n 4).toNat = roundUp n.toNat := by
  rw [toNat_alignUp, Nat.mod_eq_of_lt h, roundUp]

theorem alignUp_of_not_pads {n : UInt32} (h : ¬Pads n.toNat) : (alignUp n 4).toNat = 0 := by
  have := n.toNat_lt
  rw [toNat_alignUp]
  unfold Pads at h
  omega

section TakePadded

variable {err : NoteError} {size : UInt32} {data : List UInt8}

theorem takePadded_of_lt (h : Pads size.toNat) (hlen : data.length < roundUp size.toNat) :
    takePadded err size data = .error err := by
  rw [takePadded, alignUp_of_pads h]
  exact if_pos hlen

theorem takePadded_of_le (h : Pads size.toNat) (hlen : roundUp size.toNat ≤ data.length) :
    takePadded err size data = .ok (data.take size.toNat, data.drop (roundUp size.toNat)) := by
  have hpad := le_roundUp size.toNat
  rw [takePadded, alignUp_of_pads h, if_neg (by omega), sliceBytes_left (by omega), sliceBytes_right hlen]
  rfl

theorem takePadded_of_not_pads (h : ¬Pads size.toNat) (hlen : data.length < size.toNat) :
    takePadded err size data = .panic := by
  have hslice : (sliceBytes data 0 size.toNat : Outcome NoteError _) = .panic := if_neg (by omega)
  rw [takePadded, alignUp_of_not_pads h, if_neg (by omega), hslice]
  rfl

end TakePadded

theorem parseBuildIDNoteLoop_succ (fuel : Nat) {b : List UInt8} (h : 12 ≤ b.length) :
    parseBuildIDNoteLoop (fuel + 1) b = (do
        let (name, data) ← takePadded .nameTruncated (word b 0) (b.drop 12)
        let (desc, data) ← takePadded .descTruncated (word b 4) data
        if word b 8 = ntGNUBuildID ∧ name = gnuName then return encodeToString desc
        else parseBuildIDNoteLoop fuel data) := by
  rw [parseBuildIDNoteLoop, if_pos (by omega), if_neg (by omega), uint32At_eq (by omega), uint32At_eq (by omega),
    uint32At_eq (by omega), sliceBytes_right h]
  rfl

theorem parseBuildIDNoteLoop_of_readNote (fuel : Nat) {b rest : List UInt8} {n : Note}
    (h : readNote b = some (n, rest)) (hfits : n.Fits) :
    parseBuildIDNoteLoop (fuel + 1) b =
      if n.named then .ok (encodeToString n.desc) else parseBuildIDNoteLoop fuel rest := by
  have hname := length_name h
  have hdesc := length_desc h
  obtain ⟨hlen, heq, hrest⟩ := readNote_eq_some h
  obtain ⟨hpads, hpads'⟩ := hfits
  rw [hname] at hpads
  rw [hdesc] at hpads'
  have hfirst : roundUp (word b 0).toNat ≤ (b.drop 12).length := by
    rw [length_drop, ← nameSize]
    omega
  have hsecond : roundUp (word b 4).toNat ≤ ((b.drop 12).drop (roundUp (nameSize b))).length := by
    rw [length_drop, length_drop, ← descSize]
    omega
  rw [parseBuildIDNoteLoop_succ fuel (by omega), takePadded_of_le hpads hfirst]
  dsimp only [Bind.bind]
  rw [← nameSize, takePadded_of_le hpads' hsecond]
  dsimp only
  rw [drop_drop, drop_drop, ← descSize, ← hrest]
  have hnamed : (word b 8 = ntGNUBuildID ∧ (b.drop 12).take (nameSize b) = gnuName) ↔ n.named = true := by
    rw [heq, Note.named, Bool.and_eq_true, beq_iff_eq, beq_iff_eq]
    exact Iff.rfl
  rw [if_congr hnamed rfl rfl, heq]
  rfl

theorem parseBuildIDNoteLoop_leftover {fuel : Nat} {b : List UInt8} (h : readNote b = none) (hne : b ≠ [])
    (hlen : b.length ≤ fuel) (hpads : HeaderPads b) : ∃ e, parseBuildIDNoteLoop fuel b = .error e := by
  have hpos := length_pos_of_ne_nil hne
  cases fuel with
  | zero => omega
  | succ fuel =>
    by_cases hheader : 12 ≤ b.length
    · obtain ⟨hname, hdesc⟩ := hpads hheader
      rw [parseBuildIDNoteLoop_succ fuel hheader]
      by_cases hfit : 12 + roundUp (nameSize b) ≤ b.length
      · have hcut := readNote_eq_none h
        have hfirst : roundUp (word b 0).toNat ≤ (b.drop 12).length := by
          rw [length_drop, ← nameSize]
          omega
        have hsecond : ((b.drop 12).drop (roundUp (nameSize b))).length < roundUp (word b 4).toNat := by
          rw [length_drop, length_drop, ← descSize]
          omega
        rw [takePadded_of_le hname hfirst]
        dsimp only [Bind.bind]
        rw [← nameSize, takePadded_of_lt (hdesc hfit) hsecond]
        exact ⟨_, rfl⟩
      · have hfirst : (b.drop 12).length < roundUp (word b 0).toNat := by
          rw [length_drop, ← nameSize]
          omega
        rw [takePadded_of_lt hname hfirst]
        exact ⟨_, rfl⟩
    · refine ⟨.headerTruncated, ?_⟩
      rw [parseBuildIDNoteLoop, if_pos hpos, if_pos (by omega)]

theorem parseBuildIDNoteLoop_panics {fuel : Nat} {b : List UInt8} (hlen : b.length ≤ fuel)
    (hlt : b.length < 2 ^ 32) (hwraps : ¬HeaderPads b) : parseBuildIDNoteLoop fuel b = .panic := by
  have hheader : 12 ≤ b.length := by
    by_contra hno
    exact hwraps fun h => absurd h hno
  cases fuel with
  | zero => omega
  | succ fuel =>
    rw [parseBuildIDNoteLoop_succ fuel hheader]
    by_cases hname : Pads (nameSize b)
    · have hfit : 12 + roundUp (nameSize b) ≤ b.length := by
        by_contra hno
        exact hwraps fun _ => ⟨hname, fun h => absurd h hno⟩
      have hdesc : ¬Pads (descSize b) := fun h => hwraps fun _ => ⟨hname, fun _ => h⟩
      have hfirst : roundUp (word b 0).toNat ≤ (b.drop 12).length := by
        rw [length_drop, ← nameSize]
        omega
      have hsecond : ((b.drop 12).drop (roundUp (nameSize b))).length < (word b 4).toNat := by
        rw [length_drop, length_drop, ← descSize]
        unfold Pads at hdesc
        omega
      rw [takePadded_of_le hname hfirst]
      dsimp only [Bind.bind]
      rw [← nameSize, takePadded_of_not_pads hdesc hsecond]
    · have hfirst : (b.drop 12).length < (word b 0).toNat := by
        rw [length_drop, ← nameSize]
        unfold Pads at hname
        omega
      rw [takePadded_of_not_pads hname hfirst]
      rfl

theorem notesLoop_leftover {fuel : Nat} {b : List UInt8} (h : b.length ≤ fuel) :
    readNote (notesLoop fuel b).2 = none ∧ (notesLoop fuel b).2.length ≤ b.length := by
  induction fuel generalizing b with
  | zero =>
    have hnone : readNote b = none := if_neg (by omega)
    exact ⟨hnone, Nat.le_refl _⟩
  | succ fuel ih =>
    rw [notesLoop]
    cases hread : readNote b with
    | none => exact ⟨hread, Nat.le_refl _⟩
    | some p =>
      obtain ⟨n, rest⟩ := p
      have hrest := length_rest hread
      obtain ⟨hnone, hle⟩ := ih (b := rest) (by omega)
      exact ⟨hnone, by dsimp only; omega⟩

theorem parseBuildIDNoteLoop_of_find {fuel : Nat} {b : List UInt8} {n : Note}
    (hfits : ∀ n ∈ (notesLoop fuel b).1, n.Fits) (h : (notesLoop fuel b).1.find? Note.named = some n) :
    parseBuildIDNoteLoop fuel b = .ok (encodeToString n.desc) := by
  induction fuel generalizing b with
  | zero => cases h
  | succ fuel ih =>
    rw [notesLoop] at hfits h
    cases hread : readNote b with
    | none =>
      rw [hread] at h
      cases h
    | some p =>
      obtain ⟨m, rest⟩ := p
      rw [hread] at hfits h
      obtain ⟨hm, hrest⟩ := forall_mem_cons.mp hfits
      rw [parseBuildIDNoteLoop_of_readNote fuel hread hm]
      dsimp only at h
      rw [find?_cons] at h
      cases hnamed : m.named with
      | true =>
        rw [hnamed] at h
        cases h
        rfl
      | false =>
        rw [hnamed] at h
        exact ih hrest h

theorem parseBuildIDNoteLoop_of_find_none {fuel : Nat} {b : List UInt8} (hlen : b.length ≤ fuel)
    (hfits : ∀ n ∈ (notesLoop fuel b).1, n.Fits) (h : (notesLoop fuel b).1.find? Note.named = none) :
    ∃ fuel', (notesLoop fuel b).2.length ≤ fuel' ∧
      parseBuildIDNoteLoop fuel b = parseBuildIDNoteLoop fuel' (notesLoop fuel b).2 := by
  induction fuel generalizing b with
  | zero => exact ⟨0, hlen, rfl⟩
  | succ fuel ih =>
    rw [notesLoop] at hfits h ⊢
    cases hread : readNote b with
    | none => exact ⟨fuel + 1, hlen, rfl⟩
    | some p =>
      obtain ⟨m, rest⟩ := p
      have hshort := length_rest hread
      rw [hread] at hfits h
      obtain ⟨hm, hrest⟩ := forall_mem_cons.mp hfits
      dsimp only at h ⊢
      rw [find?_cons] at h
      cases hnamed : m.named with
      | true =>
        rw [hnamed] at h
        cases h
      | false =>
        rw [hnamed] at h
        rw [parseBuildIDNoteLoop_of_readNote fuel hread hm, hnamed]
        exact ih (by omega) hrest h

section Parse

variable {b : List UInt8}

theorem parseBuildIDNote_of_find {n : Note} (hfits : ∀ n ∈ notes b, n.Fits)
    (h : (notes b).find? Note.named = some n) : parseBuildIDNote b = .ok (encodeToString n.desc) :=
  parseBuildIDNoteLoop_of_find hfits h

theorem parseBuildIDNote_of_leftover_nil (hfits : ∀ n ∈ notes b, n.Fits)
    (h : (notes b).find? Note.named = none) (hnil : leftover b = []) : parseBuildIDNote b = .ok [] := by
  obtain ⟨fuel, -, heq⟩ := parseBuildIDNoteLoop_of_find_none (Nat.le_refl _) hfits h
  have hend : (notesLoop b.length b).2 = [] := hnil
  rw [parseBuildIDNote, heq, hend]
  cases fuel <;> rfl

theorem parseBuildIDNote_of_leftover (hfits : ∀ n ∈ notes b, n.Fits) (h : (notes b).find? Note.named = none)
    (hne : leftover b ≠ []) (hpads : HeaderPads (leftover b)) : ∃ e, parseBuildIDNote b = .error e := by
  obtain ⟨fuel, hlen, heq⟩ := parseBuildIDNoteLoop_of_find_none (Nat.le_refl _) hfits h
  rw [parseBuildIDNote, heq]
  exact parseBuildIDNoteLoop_leftover (notesLoop_leftover (Nat.le_refl _)).1 hne hlen hpads

theorem parseBuildIDNote_panics (hlt : b.length < 2 ^ 32) (hfits : ∀ n ∈ notes b, n.Fits)
    (h : (notes b).find? Note.named = none) (hwraps : ¬HeaderPads (leftover b)) : parseBuildIDNote b = .panic := by
  obtain ⟨fuel, hlen, heq⟩ := parseBuildIDNoteLoop_of_find_none (Nat.le_refl _) hfits h
  have hle := (notesLoop_leftover (Nat.le_refl b.length)).2
  rw [parseBuildIDNote, heq]
  exact parseBuildIDNoteLoop_panics hlen (by omega) hwraps

end Parse

theorem notesLoop_fits {fuel : Nat} {b : List UInt8} (h : b.length < 2 ^ 32) : ∀ n ∈ (notesLoop fuel b).1, n.Fits := by
  induction fuel generalizing b with
  | zero => exact fun _ hn => absurd hn not_mem_nil
  | succ fuel ih =>
    rw [notesLoop]
    cases hread : readNote b with
    | none => exact fun _ hn => absurd hn not_mem_nil
    | some p =>
      obtain ⟨n, rest⟩ := p
      have hrest := length_rest hread
      exact forall_mem_cons.mpr ⟨fits_of_readNote hread h, ih (by omega)⟩

/-! ## Hexadecimal forms -/

theorem hexDigit_inj : ∀ m n : Fin 16, hexDigit m = hexDigit n → m = n := by decide

theorem encodeToString_cons (x : UInt8) (b : List UInt8) :
    encodeToString (x :: b) = hexDigit (x.toNat / 16) :: hexDigit (x.toNat % 16) :: encodeToString b := rfl

theorem encodeToString_injective : Function.Injective encodeToString := by
  intro a b h
  induction a generalizing b with
  | nil =>
    cases b with
    | nil => rfl
    | cons y b => cases h
  | cons x a ih =>
    cases b with
    | nil => cases h
    | cons y b =>
      rw [encodeToString_cons, encodeToString_cons, List.cons.injEq, List.cons.injEq] at h
      obtain ⟨hhigh, hlow, htail⟩ := h
      have hx := x.toNat_lt
      have hy := y.toNat_lt
      have hdiv : x.toNat / 16 = y.toNat / 16 :=
        congrArg Fin.val (hexDigit_inj ⟨x.toNat / 16, by omega⟩ ⟨y.toNat / 16, by omega⟩ hhigh)
      have hmod : x.toNat % 16 = y.toNat % 16 :=
        congrArg Fin.val (hexDigit_inj ⟨x.toNat % 16, by omega⟩ ⟨y.toNat % 16, by omega⟩ hlow)
      have hxy : x = y := UInt8.toNat_inj.mp (by omega)
      rw [hxy, ih htail]

theorem encodeToString_eq_nil {d : List UInt8} : encodeToString d = [] ↔ d = [] :=
  ⟨fun h => encodeToString_injective h, fun h => by rw [h]; rfl⟩

/-! ## When the readers agree -/

/-- The readers return, and have the same id.  The empty string of the second reader is that it has
found none. -/
structure ReadersAgree (b : List UInt8) : Prop where
  extract_returns : (extractGNUBuildID b).Returns
  parse_returns : (parseBuildIDNote b).Returns
  parsed : ∀ d, extractGNUBuildID b = .ok (some d) → parseBuildIDNote b = .ok (encodeToString d)
  extracted : ∀ s, s ≠ [] → parseBuildIDNote b = .ok s → ∃ d, extractGNUBuildID b = .ok (some d) ∧ encodeToString d = s

/-- The second reader takes the id of a note that looks right to the first one: the first note with the
name has the same, which is the note itself where its name ends in a zero.  An empty id needs no such
note, since the second reader answers the empty string for no id as well. -/
def TakesSame (b : List UInt8) (d : List UInt8) : Prop :=
  match (notes b).find? Note.named with
  | some n => n.desc = d
  | none => d = [] ∧ leftover b = []

instance (b d : List UInt8) : Decidable (TakesSame b d) := by
  unfold TakesSame
  split <;> infer_instance

/-- No size wraps around in 32 bits, and the readers take the same note. -/
structure NotesRegular (b : List UInt8) : Prop where
  fits : ∀ n ∈ notes b, n.Fits
  ends : (notes b).find? Note.named = none → HeaderPads (leftover b)
  same : ∀ n, (notes b).find? Note.looks = some n → TakesSame b n.desc

theorem find_looks_of_find_named {l : List Note} {n : Note} (h : l.find? Note.named = some n) :
    ∃ m, l.find? Note.looks = some m := by
  apply Option.isSome_iff_exists.mp
  rw [find?_isSome]
  exact ⟨n, mem_of_find?_eq_some h, Note.looks_of_named (find?_some h)⟩

theorem extractGNUBuildID_eq_some {b d : List UInt8} :
    extractGNUBuildID b = .ok (some d) ↔ ∃ n, (notes b).find? Note.looks = some n ∧ n.desc = d := by
  rw [extractGNUBuildID_eq, Outcome.ok.injEq, Option.map_eq_some_iff]

theorem readersAgree_of_regular {b : List UInt8} (h : NotesRegular b) : ReadersAgree b := by
  constructor
  · rw [extractGNUBuildID_eq]
    trivial
  · cases hfind : (notes b).find? Note.named with
    | some n =>
      rw [parseBuildIDNote_of_find h.fits hfind]
      trivial
    | none =>
      by_cases hnil : leftover b = []
      · rw [parseBuildIDNote_of_leftover_nil h.fits hfind hnil]
        trivial
      · obtain ⟨e, he⟩ := parseBuildIDNote_of_leftover h.fits hfind hnil (h.ends hfind)
        rw [he]
        trivial
  · intro d hd
    obtain ⟨n, hn, rfl⟩ := extractGNUBuildID_eq_some.mp hd
    have hsame := h.same n hn
    unfold TakesSame at hsame
    split at hsame
    · next m hfind => rw [parseBuildIDNote_of_find h.fits hfind, hsame]
    · next hfind =>
      rw [parseBuildIDNote_of_leftover_nil h.fits hfind hsame.2, hsame.1]
      rfl
  · intro s hs hparse
    cases hfind : (notes b).find? Note.named with
    | some n =>
      rw [parseBuildIDNote_of_find h.fits hfind, Outcome.ok.injEq] at hparse
      obtain ⟨m, hm⟩ := find_looks_of_find_named hfind
      have hsame := h.same m hm
      rw [TakesSame, hfind] at hsame
      exact ⟨m.desc, extractGNUBuildID_eq_some.mpr ⟨m, hm, rfl⟩, by rw [← hparse, ← hsame]⟩
    | none =>
      by_cases hnil : leftover b = []
      · rw [parseBuildIDNote_of_leftover_nil h.fits hfind hnil, Outcome.ok.injEq] at hparse
        exact absurd hparse.symm hs
      · obtain ⟨e, he⟩ := parseBuildIDNote_of_leftover h.fits hfind hnil (h.ends hfind)
        rw [he] at hparse
        cases hparse

theorem regular_of_readersAgree {b : List UInt8} (hlt : b.length < 2 ^ 32) (h : ReadersAgree b) : NotesRegular b := by
  have hfits : ∀ n ∈ notes b, n.Fits := notesLoop_fits hlt
  have hends : (notes b).find? Note.named = none → HeaderPads (leftover b) := by
    intro hfind
    by_contra hwraps
    have hreturns := h.parse_returns
    rw [parseBuildIDNote_panics hlt hfits hfind hwraps] at hreturns
    exact hreturns
  refine ⟨hfits, hends, fun n hn => ?_⟩
  have hparse := h.parsed n.desc (extractGNUBuildID_eq_some.mpr ⟨n, hn, rfl⟩)
  unfold TakesSame
  split
  · next m hfind =>
    rw [parseBuildIDNote_of_find hfits hfind, Outcome.ok.injEq] at hparse
    exact encodeToString_injective hparse
  · next hfind =>
    by_cases hnil : leftover b = []
    · rw [parseBuildIDNote_of_leftover_nil hfits hfind hnil, Outcome.ok.injEq] at hparse
      exact ⟨encodeToString_eq_nil.mp hparse.symm, hnil⟩
    · obtain ⟨e, he⟩ := parseBuildIDNote_of_leftover hfits hfind hnil (hends hfind)
      rw [he] at hparse
      cases hparse

/-- The readers agree on regular notes, and in less than 4 GiB on no others. -/
theorem readersAgree_iff (b : List UInt8) :
    (NotesRegular b → ReadersAgree b) ∧ (b.length < 2 ^ 32 → ReadersAgree b → NotesRegular b) :=
  ⟨readersAgree_of_regular, regular_of_readersAgree⟩

def oneNote : List UInt8 :=
  [4, 0, 0, 0, 2, 0, 0, 0, 3, 0, 0, 0, 71, 78, 85, 0, 171, 205, 0, 0]

theorem readersAgree_oneNote :
    oneNote.length < 2 ^ 32 ∧ extractGNUBuildID oneNote = .ok (some [171, 205]) ∧ ReadersAgree oneNote := by
  have hregular : NotesRegular oneNote := by
    refine ⟨by decide, by decide, fun n hn => ?_⟩
    have heq : (notes oneNote).find? Note.looks = some ⟨3, gnuName, [171, 205]⟩ := by decide
    rw [heq] at hn
    cases hn
    decide
  exact ⟨by decide, by decide, (readersAgree_iff oneNote).1 hregular⟩

/-- The padded size of the name is zero, and the name is all of 4 GiB. -/
def wideName : List UInt8 := [255, 255, 255, 255, 0, 0, 0, 0, 3, 0, 0, 0]

/-- The name `GNU1` is not the one of a build id. -/
def otherName : List UInt8 :=
  [4, 0, 0, 0, 2, 0, 0, 0, 3, 0, 0, 0, 71, 78, 85, 49, 171, 205, 0, 0]

/-- The second reader looks past the end of a wide name, and passes over a note that the first one takes. -/
theorem not_readersAgree : (parseBuildIDNote wideName = .panic ∧ ¬ReadersAgree wideName) ∧
      extractGNUBuildID otherName = .ok (some [171, 205]) ∧ parseBuildIDNote otherName = .ok [] ∧
      ¬ReadersAgree otherName := by
  have hpanic : parseBuildIDNote wideName = .panic := by decide
  have hextract : extractGNUBuildID otherName = .ok (some [171, 205]) := by decide
  have hparse : parseBuildIDNote otherName = .ok [] := by decide
  refine ⟨⟨hpanic, fun h => ?_⟩, hextract, hparse, fun h => ?_⟩
  · have hreturns := h.parse_returns
    rw [hpanic] at hreturns
    exact hreturns
  · have hsame := h.parsed _ hextract
    rw [hparse, Outcome.ok.injEq] at hsame
    exact absurd hsame (by decide)

end PerfAgent.Unwind.BuildIDNotes
