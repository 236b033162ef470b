import Mathlib.Data.List.TakeWhile
import PerfAgent.Lib.Text
import PerfAgent.Pprof.Frames

/-!
# The name of a frame without a symbol

`Format` of `internal/framename/framename.go` writes the base name of a module and an offset in it.
`IsAddressOnly` and `Module` there and `uninformative` in `internal/foldedstacks/vendorruns.go` read the name.
-/

namespace PerfAgent.Flamegraph

open Pprof (ascii hasPrefix lastIndex pathBase hexOf format)

/-! ## The readers -/

def isHexDigit (c : UInt8) : Bool := (48 ≤ c && c ≤ 57) || (97 ≤ c && c ≤ 102) || (65 ≤ c && c ≤ 70)

def isHexAddr (s : List UInt8) : Bool := hasPrefix s (ascii "0x") && 3 ≤ s.length && (s.drop 2).all isHexDigit

def signatureChars : List UInt8 := ascii " \t/()<>,:*&[]"

def looksLikeModuleBase (s : List UInt8) : Bool :=
  if s = [] ∨ hasPrefix s (ascii "[") then false else !s.any fun c => c ∈ signatureChars

def isAddressOnlyName (name : List UInt8) : Bool :=
  if isHexAddr name then true
  else
    match lastIndex (ascii "+") name with
    | none => false
    | some plus =>
      if plus = 0 then false else looksLikeModuleBase (name.take plus) && isHexAddr (name.drop (plus + 1))

/-- `framename.Module` -/
def moduleOfName (name : List UInt8) : Option (List UInt8) :=
  match lastIndex (ascii "+") name with
  | none => none
  | some plus =>
    if plus = 0 then none
    else if !looksLikeModuleBase (name.take plus) || !isHexAddr (name.drop (plus + 1)) then none
    else some (name.take plus)

/-- `isHex` of `vendorruns.go` -/
def isHex (s : List UInt8) : Bool := s.all isHexDigit

def isLower (c : UInt8) : Bool := 97 ≤ c && c ≤ 122
def isUpper (c : UInt8) : Bool := 65 ≤ c && c ≤ 90
def isDigit (c : UInt8) : Bool := 48 ≤ c && c ≤ 57

/-- `obfuscatedVendorName`: a letter, letters and digits, an underscore and forty digits of base 16. -/
def obfuscatedVendorName (s : List UInt8) : Bool :=
  match s.take (s.length - 41), s.drop (s.length - 41) with
  | c :: stem, u :: digest =>
    (isLower c || isUpper c) && stem.all (fun b => isLower b || isUpper b || isDigit b) && u = 95 &&
      digest.all fun b => isDigit b || (97 ≤ b && b ≤ 102)
  | _, _ => false

def uninformative (frame module : List UInt8) : Bool :=
  if frame = [] ∨ module = [] then false
  else
    let base := pathBase module ++ ascii "+0x"
    if hasPrefix frame base ∧ frame.drop base.length ≠ [] then isHex (frame.drop base.length)
    else obfuscatedVendorName frame

/-! ## The hexadecimal offset -/

theorem digitChar_eq_digit : ∀ d < 16, UInt8.ofNat (Nat.digitChar d).toNat = Text.digit d := by decide

theorem hexOf_eq (off : UInt64) : hexOf off = Text.padded 16 1 off.toNat := by
  suffices h : ∀ n : Nat, (Nat.toDigits 16 n).map (fun c => UInt8.ofNat c.toNat) = Text.padded 16 1 n from h off.toNat
  intro n
  induction n using Nat.strongRecOn with
  | _ n ih =>
    have hmax : ∀ v, max 1 (Nat.log 16 v + 1) = Nat.log 16 v + 1 := fun v => by omega
    unfold Text.padded at ih ⊢
    simp only [hmax] at ih ⊢
    by_cases hn : n < 16
    · rw [Nat.toDigits_of_lt_base hn, Nat.log_of_lt hn]
      change [UInt8.ofNat (Nat.digitChar n).toNat] = [Text.digit (n % 16)]
      rw [digitChar_eq_digit n hn, Nat.mod_eq_of_lt hn]
    · have hge := Nat.not_lt.mp hn
      rw [Nat.toDigits_of_base_le (by decide) hge, List.map_append, ih _ (Nat.div_lt_self (by omega) (by decide)),
        Nat.log_of_one_lt_of_le (by decide) hge]
      change _ ++ [UInt8.ofNat (Nat.digitChar (n % 16)).toNat] = _ ++ [Text.digit (n % 16)]
      rw [digitChar_eq_digit _ (Nat.mod_lt n (by decide))]

theorem hexOf_ne_nil (off : UInt64) : hexOf off ≠ [] := by
  rw [hexOf_eq]
  exact Text.padded_ne_nil _ _ _

theorem hexOf_injective : Function.Injective hexOf := fun a b h => by
  rw [hexOf_eq, hexOf_eq] at h
  have hparsed := (congrArg Text.parseHex h).trans (Text.parseHex_padded 1 b)
  rw [Text.parseHex_padded] at hparsed
  exact Except.ok.inj hparsed

theorem isHexDigit_of_mem_hexOf {off : UInt64} {c : UInt8} (h : c ∈ hexOf off) : isHexDigit c = true := by
  have hall : ∀ d < 16, isHexDigit (Text.digit d) = true := by decide
  rw [hexOf_eq] at h
  obtain ⟨d, hd, rfl⟩ := Text.mem_digits (by decide) h
  exact hall d hd

theorem isHexAddr_offset (off : UInt64) : isHexAddr (ascii "0x" ++ hexOf off) = true := by
  have hpos := List.length_pos_iff.mpr (hexOf_ne_nil off)
  have hlen : (ascii "0x" ++ hexOf off).length = (hexOf off).length + 2 := by
    rw [List.length_append, Nat.add_comm]
    rfl
  have hdrop : (ascii "0x" ++ hexOf off).drop 2 = hexOf off := rfl
  unfold isHexAddr
  rw [hlen, hdrop, List.all_eq_true.mpr fun c hc => isHexDigit_of_mem_hexOf hc, Bool.and_true, Bool.and_eq_true]
  exact ⟨rfl, decide_eq_true (by omega)⟩

/-! ## Where the name is split -/

variable {sep : UInt8}

theorem lastIndex_eq_none {l : List UInt8} (h : sep ∉ l) : lastIndex [sep] l = none := by
  induction l with
  | nil => rfl
  | cons b l ih =>
    obtain ⟨hb, hl⟩ := not_or.mp (mt List.mem_cons.mpr h)
    have hfront : hasPrefix (b :: l) [sep] = false := by
      change ((sep == b) && true) = false
      rw [Bool.and_true]
      exact beq_false_of_ne hb
    rw [lastIndex, ih hl]
    simp only [hfront]
    rfl

theorem lastIndex_append (l : List UInt8) {r : List UInt8} (h : sep ∉ r) :
    lastIndex [sep] (l ++ sep :: r) = some l.length := by
  induction l with
  | nil =>
    have hfront : hasPrefix (sep :: r) [sep] = true := by
      change ((sep == sep) && true) = true
      rw [Bool.and_true]
      exact beq_self_eq_true sep
    rw [List.nil_append, lastIndex, lastIndex_eq_none h]
    simp only [hfront]
    rfl
  | cons b l ih => rw [List.cons_append, lastIndex, ih, List.length_cons]

def nameOf (base : List UInt8) (off : UInt64) : List UInt8 := base ++ ascii "+0x" ++ hexOf off

theorem nameOf_eq (base : List UInt8) (off : UInt64) : nameOf base off = base ++ 43 :: (ascii "0x" ++ hexOf off) := by
  unfold nameOf
  rw [List.append_assoc]
  rfl

theorem plus_notMem_offset (off : UInt64) : (43 : UInt8) ∉ ascii "0x" ++ hexOf off := by
  rw [List.mem_append]
  rintro (h | h)
  · exact absurd h (by decide)
  · exact absurd (isHexDigit_of_mem_hexOf h) (by decide)

theorem lastIndex_nameOf (base : List UInt8) (off : UInt64) :
    lastIndex (ascii "+") (nameOf base off) = some base.length := by
  rw [nameOf_eq]
  exact lastIndex_append base (plus_notMem_offset off)

theorem take_nameOf (base : List UInt8) (off : UInt64) : (nameOf base off).take base.length = base := by
  rw [nameOf_eq, List.take_left]

theorem drop_nameOf (base : List UInt8) (off : UInt64) :
    (nameOf base off).drop (base.length + 1) = ascii "0x" ++ hexOf off := by
  rw [nameOf_eq, List.drop_length_add_append]
  rfl

theorem nameOf_inj {base base' : List UInt8} {off off' : UInt64} (h : nameOf base off = nameOf base' off') :
    base = base' ∧ off = off' := by
  have hlen : base.length = base'.length := by
    have hindex := lastIndex_nameOf base off
    rw [h, lastIndex_nameOf] at hindex
    exact (Option.some.inj hindex).symm
  have hbase : base = base' := by
    rw [← take_nameOf base off, h, hlen, take_nameOf]
  refine ⟨hbase, ?_⟩
  have hoff := drop_nameOf base off
  rw [h, hlen, drop_nameOf] at hoff
  exact hexOf_injective (List.append_cancel_left hoff).symm

theorem isHexAddr_nameOf (base : List UInt8) (off : UInt64) : isHexAddr (nameOf base off) = false := by
  refine Bool.eq_false_iff.mpr fun h => ?_
  unfold isHexAddr at h
  simp only [Bool.and_eq_true] at h
  obtain ⟨⟨hfront, _⟩, hdigits⟩ := h
  obtain ⟨rest, hrest⟩ := List.isPrefixOf_iff_prefix.mp hfront
  have hplus : (43 : UInt8) ∈ nameOf base off := by
    rw [nameOf_eq]
    exact List.mem_append_right _ List.mem_cons_self
  rw [← hrest] at hplus hdigits
  rcases List.mem_append.mp hplus with hmem | hmem
  · exact absurd hmem (by decide)
  · have hdigit := List.all_eq_true.mp hdigits 43 hmem
    exact absurd hdigit (by decide)

/-! ## What the readers make of a name -/

section Readers

variable {base : List UInt8}

theorem isAddressOnlyName_nameOf (hbase : base ≠ []) (off : UInt64) :
    isAddressOnlyName (nameOf base off) = looksLikeModuleBase base := by
  have hpos : base.length ≠ 0 := fun h => hbase (List.length_eq_zero_iff.mp h)
  unfold isAddressOnlyName
  rw [isHexAddr_nameOf, lastIndex_nameOf]
  simp only
  rw [if_neg Bool.false_ne_true, if_neg hpos, take_nameOf, drop_nameOf, isHexAddr_offset, Bool.and_true]

theorem moduleOfName_nameOf (hbase : base ≠ []) (off : UInt64) :
    moduleOfName (nameOf base off) = if looksLikeModuleBase base then some base else none := by
  have hpos : base.length ≠ 0 := fun h => hbase (List.length_eq_zero_iff.mp h)
  unfold moduleOfName
  rw [lastIndex_nameOf]
  simp only
  rw [if_neg hpos, take_nameOf, drop_nameOf, isHexAddr_offset]
  cases looksLikeModuleBase base <;> rfl

theorem uninformative_nameOf {path : List UInt8} (hpath : path ≠ []) (off : UInt64) :
    uninformative (nameOf (pathBase path) off) path = true := by
  have hne : nameOf (pathBase path) off ≠ [] := by
    rw [nameOf_eq]
    exact List.append_ne_nil_of_right_ne_nil _ (List.cons_ne_nil _ _)
  have hdrop : (nameOf (pathBase path) off).drop (pathBase path ++ ascii "+0x").length = hexOf off := List.drop_left
  unfold uninformative
  rw [if_neg (not_or.mpr ⟨hne, hpath⟩)]
  simp only
  rw [hdrop, if_pos ⟨ List.isPrefixOf_iff_prefix.mpr (List.prefix_append _ _), hexOf_ne_nil off⟩]
  exact List.all_eq_true.mpr fun c hc => isHexDigit_of_mem_hexOf hc

end Readers

/-! ## Paths -/

def NamesFile (path : List UInt8) : Prop :=
  path ≠ [] ∧ hasPrefix path (ascii "[") = false ∧ pathBase path ≠ ascii "." ∧ pathBase path ≠ ascii "/"

theorem pathBase_ne_nil (path : List UInt8) : pathBase path ≠ [] := by
  unfold pathBase
  split
  · decide
  · simp only
    split
    · decide
    · assumption

theorem format_of_namesFile {path : List UInt8} (h : NamesFile path) (off : UInt64) :
    format path off = nameOf (pathBase path) off := by
  obtain ⟨hne, hbracket, hdot, hslash⟩ := h
  unfold format
  rw [if_neg (by rw [hbracket]; exact not_or.mpr ⟨hne, Bool.false_ne_true⟩)]
  exact if_neg (not_or.mpr ⟨pathBase_ne_nil path, not_or.mpr ⟨hdot, hslash⟩⟩)

theorem format_ne_nil_iff {path : List UInt8} {off : UInt64} : format path off ≠ [] ↔ NamesFile path := by
  constructor
  · intro h
    unfold format at h
    split at h
    · exact absurd rfl h
    · next hfirst =>
      simp only at h
      split at h
      · exact absurd rfl h
      · next hbase =>
        obtain ⟨hne, hbracket⟩ := not_or.mp hfirst
        obtain ⟨_, hother⟩ := not_or.mp hbase
        obtain ⟨hdot, hslash⟩ := not_or.mp hother
        exact ⟨hne, Bool.eq_false_iff.mpr hbracket, hdot, hslash⟩
  · intro h
    rw [format_of_namesFile h, nameOf_eq]
    exact List.append_ne_nil_of_right_ne_nil _ (List.cons_ne_nil _ _)

theorem slash_notMem_pathBase {path : List UInt8} (h : NamesFile path) : (47 : UInt8) ∉ pathBase path := by
  have hslash := h.2.2.2
  unfold pathBase at hslash ⊢
  rw [if_neg h.1] at hslash ⊢
  simp only at hslash ⊢
  split
  · next hnil => exact absurd (if_pos hnil) hslash
  · rw [List.mem_reverse]
    intro hmem
    have hne := List.mem_takeWhile_imp hmem
    exact absurd hne (by decide)

def PlainBase (base : List UInt8) : Prop := ∀ c ∈ ascii " \t()<>,:*&[]", c ∉ base

theorem looksLikeModuleBase_iff {path : List UInt8} (h : NamesFile path) :
    looksLikeModuleBase (pathBase path) = true ↔ PlainBase (pathBase path) := by
  have hchars : ∀ c : UInt8, c ∈ signatureChars ↔ c = 47 ∨ c ∈ ascii " \t()<>,:*&[]" := fun c => by
    change c ∈ ascii " \t" ++ 47 :: ascii "()<>,:*&[]" ↔ c = 47 ∨ c ∈ ascii " \t" ++ ascii "()<>,:*&[]"
    rw [List.mem_append, List.mem_append, List.mem_cons, or_left_comm]
  have hany : (!(pathBase path).any fun c => c ∈ signatureChars) = true ↔ PlainBase (pathBase path) := by
    rw [Bool.not_eq_true', List.any_eq_false]
    constructor
    · intro hnone c hc hmem
      exact hnone c hmem (decide_eq_true ((hchars c).mpr (.inr hc)))
    · intro hplain c hmem hc
      rcases (hchars c).mp (of_decide_eq_true hc) with rfl | hc
      · exact slash_notMem_pathBase h hmem
      · exact hplain c hc hmem
  unfold looksLikeModuleBase
  split
  · next hbracket =>
    refine iff_of_false Bool.false_ne_true fun hplain => ?_
    rcases hbracket with hnil | hbracket
    · exact pathBase_ne_nil path hnil
    · obtain ⟨rest, hrest⟩ := List.isPrefixOf_iff_prefix.mp hbracket
      exact hplain 91 (by decide) (hrest ▸ List.mem_append_left _ (by decide))
  · exact hany

/-! ## Agreement -/

/-- Every reader recognises the name that is written for the path and the offset, and no other base name or offset
has it. -/
structure Recognised (path : List UInt8) (off : UInt64) : Prop where
  addressOnly : isAddressOnlyName (format path off) = true
  module : moduleOfName (format path off) = some (pathBase path)
  uninformative : uninformative (format path off) path = true
  distinct : ∀ path' off', format path' off' = format path off → pathBase path' = pathBase path ∧ off' = off

/-- The readers agree with the writer if and only if the base name is plain. -/
theorem recognised_iff (path : List UInt8) (off : UInt64) :
    (format path off ≠ [] → Recognised path off) ↔ (NamesFile path → PlainBase (pathBase path)) := by
  rw [format_ne_nil_iff]
  refine forall_congr' fun h => ?_
  rw [← looksLikeModuleBase_iff h]
  constructor
  · intro hrecognised
    have honly := hrecognised.addressOnly
    rwa [format_of_namesFile h, isAddressOnlyName_nameOf (pathBase_ne_nil path)] at honly
  · intro hlooks
    refine ⟨?_, ?_, ?_, fun path' off' heq => ?_⟩
    · rw [format_of_namesFile h, isAddressOnlyName_nameOf (pathBase_ne_nil path), hlooks]
    · rw [format_of_namesFile h, moduleOfName_nameOf (pathBase_ne_nil path), if_pos hlooks]
    · rw [format_of_namesFile h, uninformative_nameOf h.1]
    · have h' : NamesFile path' := by
        rw [← @format_ne_nil_iff path' off', heq]
        exact format_ne_nil_iff.mpr h
      rw [format_of_namesFile h, format_of_namesFile h'] at heq
      exact nameOf_inj heq

/-- A library with a blank in its name. -/
theorem not_recognised_blank :
    ¬(format (ascii "/opt/My App/lib one.so") 16 ≠ [] → Recognised (ascii "/opt/My App/lib one.so") 16) := by
  intro h
  exact absurd (h (by decide)).addressOnly (by decide)

end PerfAgent.Flamegraph
