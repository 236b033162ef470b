import Mathlib.Data.List.Find
import Mathlib.Data.Nat.Log
import Mathlib.Data.UInt
import Mathlib.Tactic.Ring

/-!
# Lines, words and numbers of a text

The text is a list of bytes.  `scanLines` is the line scanner of Go's `bufio`, with its longest line,
`fields` is `strings.Fields`, and `parseHex` is `strconv.ParseUint` in base 16.

What separates two words is a string out of a table, because a white space character may take more
than one byte.  None of those bytes can be in the middle of another character, so the text need not be
decoded to find them.
-/

namespace PerfAgent.Text

open List

universe u

/-! ## Words -/

section Words

variable {α : Type u}

def flush (word : List α) : List (List α) := if word = [] then [] else [word]

theorem flush_of_ne {word : List α} (h : word ≠ []) : flush word = [word] := if_neg h

variable (spaces : List (List α))

def Spaceless (l : List α) : Prop := ∀ s ∈ spaces, ¬s <:+: l

/-- `sep` separates alone, and is in no other separator. -/
structure Separates (sep : α) : Prop where
  mem : [sep] ∈ spaces
  alone : ∀ s ∈ spaces, sep ∈ s → s = [sep]

/-- No separator begins in `word` when `l` follows it. -/
def BeginsIn (word l : List α) : Prop := ∀ t, t ≠ [] → t <:+ word → ∀ s ∈ spaces, ¬s <+: t ++ l

variable {l : List α}

theorem BeginsIn.spaceless {spaces : List (List α)} {word : List α} (h : BeginsIn spaces word l)
    (hne : word ≠ []) : Spaceless spaces word := by
  rintro s hs hin
  obtain ⟨t, hpre, hsuf⟩ := infix_iff_prefix_suffix.mp hin
  cases t with
  | nil =>
    obtain rfl : s = [] := prefix_nil.mp hpre
    exact h word hne (suffix_refl _) [] hs nil_prefix
  | cons b t => exact h (b :: t) (cons_ne_nil _ _) hsuf s hs (hpre.trans (prefix_append _ _))

theorem spaceless_of_mem_flush {spaces : List (List α)} {word : List α} (h : BeginsIn spaces word l)
    {w : List α} (hw : w ∈ flush word) : Spaceless spaces w := by
  by_cases hne : word = []
  · rw [hne] at hw
    exact absurd hw not_mem_nil
  · rw [flush_of_ne hne, mem_singleton] at hw
    rw [hw]
    exact h.spaceless hne

variable [DecidableEq α]

instance (l : List α) : Decidable (Spaceless spaces l) := by
  unfold Spaceless
  infer_instance

/-- The words of a text, where `skip` elements of the separator before it and the beginning of a
word have been read. -/
def fieldsFrom : Nat → List α → List α → List (List α)
  | _, word, [] => flush word
  | skip + 1, word, _ :: l => fieldsFrom skip word l
  | 0, word, a :: l =>
    match spaces.find? fun s => s.isPrefixOf (a :: l) with
    | none => fieldsFrom 0 (word ++ [a]) l
    | some s => flush word ++ fieldsFrom (s.length - 1) [] l

def fieldsBy (l : List α) : List (List α) := fieldsFrom spaces 0 [] l

variable {spaces}

theorem find_eq_none_of_head {a : α} (h : ∀ s ∈ spaces, s ≠ [] ∧ s.head? ≠ some a) :
    (spaces.find? fun s => s.isPrefixOf (a :: l)) = none := by
  rw [find?_eq_none]
  intro s hs hpre
  obtain ⟨hne, hhead⟩ := h s hs
  obtain ⟨b, s, rfl⟩ := exists_cons_of_ne_nil hne
  rw [ isPrefixOf_iff_prefix, cons_prefix_cons] at hpre
  exact hhead (congrArg some hpre.1)

variable {sep : α}

/-- A separator cannot begin in a text without any and end in what follows, when that begins with a
separator of its own. -/
theorem Separates.find_eq_none (hsep : Separates spaces sep) {a : α} {r : List α} (hl : Spaceless spaces (a :: l))
    (hr : r = [] ∨ r.head? = some sep) : (spaces.find? fun s => s.isPrefixOf (a :: l ++ r)) = none := by
  rw [find?_eq_none]
  intro s hs hpre
  rw [ isPrefixOf_iff_prefix] at hpre
  rcases prefix_or_prefix_of_prefix hpre (prefix_append (a :: l) r) with hin | hout
  · exact hl s hs hin.isInfix
  · obtain ⟨t, rfl⟩ := hout
    have ht : t <+: r := (prefix_append_right_inj _).mp hpre
    cases t with
    | nil => exact hl _ hs (by simp)
    | cons b t =>
      rcases hr with rfl | hr
      · exact absurd ht (by simp)
      · obtain ⟨t', rfl⟩ := ht
        have hb : b = sep := by simpa using hr
        have hone := hsep.alone _ hs (by simp [hb])
        simp at hone

theorem Separates.fieldsFrom_append (hsep : Separates spaces sep) {w r : List α} (word : List α)
    (hw : Spaceless spaces w) (hr : r = [] ∨ r.head? = some sep) :
    fieldsFrom spaces 0 word (w ++ r) = fieldsFrom spaces 0 (word ++ w) r := by
  induction w generalizing word with
  | nil => rw [nil_append, append_nil]
  | cons a w ih =>
    have hw' : Spaceless spaces w := fun s hs hin => hw s hs (hin.trans (suffix_cons a w).isInfix)
    rw [cons_append, fieldsFrom, ← cons_append, hsep.find_eq_none hw hr]
    dsimp only
    rw [ih _ hw', append_assoc, singleton_append]

theorem Separates.fieldsFrom_sep (hsep : Separates spaces sep) (word l : List α) :
    fieldsFrom spaces 0 word (sep :: l) = flush word ++ fieldsBy spaces l := by
  rw [fieldsFrom]
  cases hfind : spaces.find? fun s => s.isPrefixOf (sep :: l) with
  | none => exact absurd (find?_eq_none.mp hfind _ hsep.mem) (by simp)
  | some s =>
    have hpre : s <+: sep :: l := by simpa using find?_some hfind
    have hlen : s.length - 1 = 0 := by
      cases s with
      | nil => rfl
      | cons b s =>
        obtain ⟨rfl, -⟩ := cons_prefix_cons.mp hpre
        rw [hsep.alone _ (mem_of_find?_eq_some hfind) mem_cons_self]
        rfl
    dsimp only
    rw [hlen]
    rfl

theorem Separates.fieldsBy_cons (hsep : Separates spaces sep) {w : List α} (hw : Spaceless spaces w) (hne : w ≠ [])
    (l : List α) : fieldsBy spaces (w ++ sep :: l) = w :: fieldsBy spaces l := by
  unfold fieldsBy
  rw [hsep.fieldsFrom_append [] hw (.inr rfl), nil_append, hsep.fieldsFrom_sep, flush_of_ne hne]
  rfl

theorem Separates.fieldsBy_replicate (hsep : Separates spaces sep) (n : Nat) (l : List α) :
    fieldsBy spaces (List.replicate n sep ++ l) = fieldsBy spaces l := by
  induction n with
  | zero => rfl
  | succ n ih =>
    rw [replicate_succ, cons_append, ← ih]
    exact hsep.fieldsFrom_sep [] _

theorem Separates.head_fieldsBy (hsep : Separates spaces sep) {w r : List α} (hw : Spaceless spaces w) (hne : w ≠ [])
    (hr : r = [] ∨ r.head? = some sep) : (fieldsBy spaces (w ++ r)).head? = some w := by
  rcases hr with rfl | hr
  · unfold fieldsBy
    rw [hsep.fieldsFrom_append [] hw (.inl rfl), nil_append, fieldsFrom, flush_of_ne hne]
    rfl
  · obtain ⟨r, rfl⟩ := head?_eq_some_iff.mp hr
    rw [hsep.fieldsBy_cons hw hne]
    rfl

theorem Separates.fieldsFrom_concat (hsep : Separates spaces sep) (skip : Nat) (word l : List α) :
    fieldsFrom spaces skip word (l ++ [sep]) = fieldsFrom spaces skip word l := by
  induction l generalizing skip word with
  | nil =>
    cases skip with
    | zero =>
      rw [nil_append, hsep.fieldsFrom_sep, fieldsFrom]
      exact append_nil _
    | succ skip => rw [nil_append, fieldsFrom, fieldsFrom, fieldsFrom]
  | cons a l ih =>
    cases skip with
    | succ skip =>
      rw [cons_append, fieldsFrom, fieldsFrom]
      exact ih _ _
    | zero =>
      have hsame : ∀ s ∈ spaces, (s.isPrefixOf (a :: l ++ [sep])) = (s.isPrefixOf (a :: l)) := by
        intro s hs
        rw [Bool.eq_iff_iff, isPrefixOf_iff_prefix, isPrefixOf_iff_prefix, prefix_concat_iff]
        refine or_iff_right_of_imp fun hall => ?_
        have hone := hsep.alone s hs (by simp [hall])
        rw [hone] at hall
        simp at hall
      rw [cons_append, fieldsFrom, fieldsFrom, ← cons_append, find?_congr hsame]
      split
      · exact ih _ _
      · rw [ih]

theorem head_fieldsFrom_of_ne (l word : List α) (h : word ≠ []) :
    ∃ w, (fieldsFrom spaces 0 word l).head? = some (word ++ w) := by
  induction l generalizing word with
  | nil => exact ⟨[], by rw [fieldsFrom, flush_of_ne h, append_nil]; rfl⟩
  | cons a l ih =>
    rw [fieldsFrom]
    split
    · obtain ⟨w, hw⟩ := ih (word ++ [a]) (by simp)
      exact ⟨a :: w, by rw [hw, append_assoc, singleton_append]⟩
    · exact ⟨[], by rw [flush_of_ne h, append_nil]; rfl⟩

theorem spaceless_of_mem_fieldsFrom (skip : Nat) (word : List α) (h : BeginsIn spaces word l)
    (hskip : skip ≠ 0 → word = []) {w : List α} (hw : w ∈ fieldsFrom spaces skip word l) : Spaceless spaces w := by
  induction l generalizing skip word with
  | nil =>
    rw [fieldsFrom] at hw
    exact spaceless_of_mem_flush h hw
  | cons a l ih =>
    have hnil : BeginsIn spaces [] l := fun t hne hsuf => absurd (suffix_nil.mp hsuf) hne
    cases skip with
    | succ skip =>
      obtain rfl := hskip (Nat.succ_ne_zero skip)
      rw [fieldsFrom] at hw
      exact ih skip [] hnil (fun _ => rfl) hw
    | zero =>
      rw [fieldsFrom] at hw
      split at hw
      · next hfind =>
          refine ih 0 (word ++ [a]) (fun t hne hsuf s hs hpre => ?_) (fun h => absurd rfl h) hw
          rcases eq_nil_or_concat t with rfl | ⟨t, b, rfl⟩
          · exact hne rfl
          · rw [concat_eq_append] at hsuf hpre
            obtain ⟨hb, hsuf⟩ : b = a ∧ t <:+ word := by
              obtain ⟨v, hv⟩ := hsuf
              rw [← append_assoc] at hv
              obtain ⟨hv, hb⟩ := append_inj' hv rfl
              exact ⟨by simpa using hb, v, hv⟩
            rw [hb, append_assoc, singleton_append] at hpre
            cases t with
            | nil => exact absurd (find?_eq_none.mp hfind s hs) (by simpa using hpre)
            | cons c t => exact h _ (cons_ne_nil c t) hsuf s hs hpre
      · rcases mem_append.mp hw with hw | hw
        · exact spaceless_of_mem_flush h hw
        · exact ih _ [] hnil (fun _ => rfl) hw

theorem spaceless_of_mem_fieldsBy {w : List α} (hw : w ∈ fieldsBy spaces l) : Spaceless spaces w :=
  spaceless_of_mem_fieldsFrom 0 [] (fun _ hne hsuf => absurd (suffix_nil.mp hsuf) hne) (fun h => absurd rfl h) hw

end Words

/-! ## White space -/

def whiteSpace : List (List UInt8) :=
  [[0x09], [0x0a], [0x0b], [0x0c], [0x0d], [0x20], [0xc2, 0x85], [0xc2, 0xa0], [0xe1, 0x9a, 0x80],
    [0xe2, 0x80, 0x80], [0xe2, 0x80, 0x81], [0xe2, 0x80, 0x82], [0xe2, 0x80, 0x83], [0xe2, 0x80, 0x84],
    [0xe2, 0x80, 0x85], [0xe2, 0x80, 0x86], [0xe2, 0x80, 0x87], [0xe2, 0x80, 0x88], [0xe2, 0x80, 0x89],
    [0xe2, 0x80, 0x8a], [0xe2, 0x80, 0xa8], [0xe2, 0x80, 0xa9], [0xe2, 0x80, 0xaf], [0xe2, 0x81, 0x9f],
    [0xe3, 0x80, 0x80]]

/-- `strings.Fields`. -/
def fields (l : List UInt8) : List (List UInt8) := fieldsBy whiteSpace l

theorem blank_separates : Separates whiteSpace 0x20 := ⟨by decide, by decide⟩

def Graphic (l : List UInt8) : Prop := ∀ b ∈ l, 0x20 < b ∧ b < 0x7f

theorem Graphic.append {l l' : List UInt8} (h : Graphic l) (h' : Graphic l') : Graphic (l ++ l') := by
  intro b hb
  rcases mem_append.mp hb with hb | hb
  · exact h b hb
  · exact h' b hb

theorem Graphic.spaceless {l : List UInt8} (h : Graphic l) : Spaceless whiteSpace l := by
  have hbytes : ∀ s ∈ whiteSpace, ∃ b ∈ s, ¬(0x20 < b ∧ b < 0x7f) := by decide
  intro s hs hin
  obtain ⟨b, hb, hno⟩ := hbytes s hs
  exact hno (h b (hin.subset hb))

/-! ## Lines -/

section Lines

theorem carriageReturn_separates : Separates whiteSpace 0x0d := ⟨by decide, by decide⟩

def dropCR (line : List UInt8) : List UInt8 := if line.getLast? = some 13 then line.dropLast else line

theorem fields_dropCR (line : List UInt8) : fields (dropCR line) = fields line := by
  unfold dropCR
  split
  · next h =>
      obtain ⟨l, rfl⟩ := getLast?_eq_some_iff.mp h
      rw [dropLast_concat]
      exact (carriageReturn_separates.fieldsFrom_concat 0 [] l).symm
  · rfl

/-- The lines that a scanner with a buffer of `size` bytes finds, where `line` is what is in the buffer
already, and whether it gave up because a line does not fit. -/
def scanLinesFrom (size : Nat) (line : List UInt8) : List UInt8 → List (List UInt8) × Bool
  | [] => if line = [] then ([], false) else ([dropCR line], false)
  | b :: l =>
    if b = 10 then
      let s := scanLinesFrom size [] l
      (dropCR line :: s.1, s.2)
    else if size ≤ line.length + 1 then ([], true)
    else scanLinesFrom size (line ++ [b]) l

def scanLines (size : Nat) (l : List UInt8) : List (List UInt8) × Bool := scanLinesFrom size [] l

theorem scanLinesFrom_append {size : Nat} {line l : List UInt8} (word : List UInt8) (hline : 10 ∉ line)
    (hsize : (word ++ line).length < size) :
    scanLinesFrom size word (line ++ 10 :: l)
      = (dropCR (word ++ line) :: (scanLines size l).1, (scanLines size l).2) := by
  induction line generalizing word with
  | nil =>
    rw [nil_append, scanLinesFrom, if_pos rfl, append_nil]
    rfl
  | cons b line ih =>
    rw [mem_cons, not_or] at hline
    obtain ⟨hb, hline⟩ := hline
    have hlen : word.length + 1 < size := by
      simp only [List.length_append, length_cons] at hsize
      omega
    rw [cons_append, scanLinesFrom, if_neg (Ne.symm hb), if_neg (Nat.not_le.mpr hlen),
      ih _ hline (by simpa using hsize), append_assoc, singleton_append]

theorem scanLinesFrom_tooLong {size : Nat} {line l : List UInt8} (word : List UInt8) (hline : 10 ∉ line)
    (hword : word.length < size) (hsize : size ≤ (word ++ line).length) :
    scanLinesFrom size word (line ++ l) = ([], true) := by
  induction line generalizing word with
  | nil =>
    rw [append_nil] at hsize
    omega
  | cons b line ih =>
    rw [mem_cons, not_or] at hline
    obtain ⟨hb, hline⟩ := hline
    rw [cons_append, scanLinesFrom, if_neg (Ne.symm hb)]
    split
    · rfl
    · next hfit => exact ih _ hline (by simpa using Nat.not_le.mp hfit) (by simpa using hsize)

def unlines (lines : List (List UInt8)) : List UInt8 := lines.flatMap fun line => line ++ [10]

theorem scanLines_unlines {size : Nat} {lines : List (List UInt8)}
    (h : ∀ line ∈ lines, 10 ∉ line ∧ line.length < size) :
    scanLines size (unlines lines) = (lines.map dropCR, false) := by
  induction lines with
  | nil => rfl
  | cons line lines ih =>
    obtain ⟨⟨hline, hsize⟩, h⟩ := forall_mem_cons.mp h
    show scanLinesFrom size [] ((line ++ [10]) ++ unlines lines) = _
    rw [append_assoc, singleton_append, scanLinesFrom_append [] hline hsize, ih h]
    rfl

theorem scanLines_tooLong {size : Nat} (hpos : 0 < size) {lines : List (List UInt8)}
    (hline : ∀ line ∈ lines, 10 ∉ line) (h : ∃ line ∈ lines, size ≤ line.length) :
    (scanLines size (unlines lines)).2 = true := by
  induction lines with
  | nil => exact absurd h (by simp)
  | cons line lines ih =>
    obtain ⟨hfirst, hrest⟩ := forall_mem_cons.mp hline
    show (scanLinesFrom size [] ((line ++ [10]) ++ unlines lines)).2 = true
    rw [append_assoc]
    by_cases hsize : line.length < size
    · rw [singleton_append, scanLinesFrom_append [] hfirst hsize]
      refine ih hrest ?_
      obtain ⟨l, hl, hlong⟩ := h
      rcases mem_cons.mp hl with rfl | hl
      · omega
      · exact ⟨l, hl, hlong⟩
    · rw [scanLinesFrom_tooLong [] hfirst hpos (Nat.not_lt.mp hsize)]

end Lines

variable {base : Nat}

/-! ## Numbers -/

section Numbers

inductive NumError where
  | invalid
  | range
deriving DecidableEq

def hexValue (b : UInt8) : Option Nat :=
  if 48 ≤ b ∧ b ≤ 57 then some (b.toNat - 48)
  else if 97 ≤ b ∧ b ≤ 102 then some (b.toNat - 87)
  else if 65 ≤ b ∧ b ≤ 70 then some (b.toNat - 55)
  else none

/-- The loop of `strconv.ParseUint(s, 16, 64)`. -/
def parseHexFrom (acc : Nat) : List UInt8 → Except NumError Nat
  | [] => .ok acc
  | b :: l =>
    match hexValue b with
    | none => .error .invalid
    | some d => if 2 ^ 64 ≤ acc * 16 + d then .error .range else parseHexFrom (acc * 16 + d) l

/-- `strconv.ParseUint(s, 16, 64)`. -/
def parseHex (l : List UInt8) : Except NumError UInt64 :=
  if l = [] then .error .invalid else (parseHexFrom 0 l).map UInt64.ofNat

def digit (d : Nat) : UInt8 := if d < 10 then UInt8.ofNat (48 + d) else UInt8.ofNat (87 + d)

/-- The last `n` digits of a number. -/
def digits (base : Nat) : Nat → Nat → List UInt8
  | 0, _ => []
  | n + 1, v => digits base n (v / base) ++ [digit (v % base)]

/-- A number with at least `width` digits. -/
def padded (base width v : Nat) : List UInt8 := digits base (max width (Nat.log base v + 1)) v

@[simp] theorem length_digits (base n v : Nat) : (digits base n v).length = n := by
  induction n generalizing v with
  | zero => rfl
  | succ n ih => rw [digits, List.length_append, ih, length_singleton]

theorem padded_ne_nil (base width v : Nat) : padded base width v ≠ [] := by
  rw [← length_pos_iff, padded, length_digits]
  omega

theorem mem_digits (hbase : 0 < base) {n v : Nat} {b : UInt8} (hb : b ∈ digits base n v) : ∃ d < base, b = digit d := by
  induction n generalizing v with
  | zero => exact absurd hb not_mem_nil
  | succ n ih =>
    rw [digits, mem_append, mem_singleton] at hb
    rcases hb with hb | rfl
    · exact ih hb
    · exact ⟨v % base, Nat.mod_lt v hbase, rfl⟩

theorem hexValue_digit : ∀ d < 16, hexValue (digit d) = some d := by decide

theorem graphic_digits (hpos : 0 < base) (hbase : base ≤ 16) (n v : Nat) : Graphic (digits base n v) := by
  have hall : ∀ d < 16, 0x20 < digit d ∧ digit d < 0x7f := by decide
  intro b hb
  obtain ⟨d, hd, rfl⟩ := mem_digits hpos hb
  exact hall d (Nat.lt_of_lt_of_le hd hbase)

theorem parseHexFrom_append (acc : Nat) (l l' : List UInt8) :
    parseHexFrom acc (l ++ l') = (parseHexFrom acc l).bind fun n => parseHexFrom n l' := by
  induction l generalizing acc with
  | nil => rfl
  | cons b l ih =>
    rw [cons_append, parseHexFrom, parseHexFrom]
    split
    · rfl
    · split
      · rfl
      · exact ih _

theorem parseHexFrom_digits {n v : Nat} (hv : v < 2 ^ 64) : parseHexFrom 0 (digits 16 n v) = .ok (v % 16 ^ n) := by
  induction n generalizing v with
  | zero => rw [Nat.pow_zero, Nat.mod_one]; rfl
  | succ n ih =>
    have hmod : v / 16 % 16 ^ n * 16 + v % 16 = v % 16 ^ (n + 1) := by
      rw [Nat.pow_succ', Nat.mod_mul]
      omega
    have hle : v % 16 ^ (n + 1) ≤ v := Nat.mod_le _ _
    rw [digits, parseHexFrom_append, ih (by omega)]
    show parseHexFrom _ [_] = _
    rw [parseHexFrom, hexValue_digit _ (Nat.mod_lt v (by decide))]
    dsimp only
    rw [if_neg (by omega), hmod]
    rfl

theorem parseHex_padded (width : Nat) (v : UInt64) : parseHex (padded 16 width v.toNat) = .ok v := by
  have hlt : v.toNat < 16 ^ max width (Nat.log 16 v.toNat + 1) :=
    Nat.lt_of_lt_of_le (Nat.lt_pow_succ_log_self (by decide) _) (Nat.pow_le_pow_right (by decide) (Nat.le_max_right _ _))
  rw [parseHex, if_neg (padded_ne_nil _ _ _), padded, parseHexFrom_digits v.toNat_lt, Nat.mod_eq_of_lt hlt]
  exact congrArg Except.ok UInt64.ofNat_toNat

end Numbers

end PerfAgent.Text
