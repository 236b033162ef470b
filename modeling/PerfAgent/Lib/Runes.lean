import PerfAgent.Lib.Text

/-!
# Runes of a byte string

How Go reads a byte string as UTF-8: a byte that begins no character is read alone, as the
replacement character.  Whatever the bytes are, a rune below `0x80` is one byte and is that
byte, and no other rune has a byte below `0x80`; so words that are separated by such runes are
separated by the same bytes.
-/

universe u

namespace PerfAgent.Text

open List

/-! ## Words between separators -/

section Fields

variable {α : Type u} (p : α → Bool)

/-- `strings.FieldsFunc`: the words between the elements that `p` holds of. -/
def fieldsFunc : List α → List α → List (List α)
  | word, [] => flush word
  | word, a :: l => if p a then flush word ++ fieldsFunc [] l else fieldsFunc (word ++ [a]) l

variable {p}

theorem fieldsFunc_append {w : List α} (hw : ∀ a ∈ w, p a = false) (word l : List α) :
    fieldsFunc p word (w ++ l) = fieldsFunc p (word ++ w) l := by
  induction w generalizing word with
  | nil => rw [nil_append, append_nil]
  | cons a w ih =>
    obtain ⟨ha, hw⟩ := forall_mem_cons.mp hw
    rw [cons_append, fieldsFunc, ha, if_neg Bool.false_ne_true, ih hw, append_assoc]
    rfl

theorem fieldsFunc_of_ne {word : List α} (h : word ≠ []) (l : List α) : fieldsFunc p word l =
      (word ++ l.takeWhile fun a => !p a) :: fieldsFunc p [] (l.dropWhile fun a => !p a) := by
  induction l generalizing word with
  | nil => rw [fieldsFunc, flush_of_ne h, takeWhile_nil, append_nil]; rfl
  | cons a l ih =>
    cases ha : p a with
    | true =>
      rw [fieldsFunc, if_pos ha, flush_of_ne h, takeWhile_cons_of_neg (by simp [ha]),
        dropWhile_cons_of_neg (by simp [ha]), append_nil, fieldsFunc, if_pos ha]
      rfl
    | false =>
      rw [fieldsFunc, if_neg (by simp [ha]), ih (by simp), takeWhile_cons_of_pos (by simp [ha]),
        dropWhile_cons_of_pos (by simp [ha]), append_assoc]
      rfl

theorem fieldsFunc_dropWhile (l : List α) : fieldsFunc p [] (l.dropWhile p) = fieldsFunc p [] l := by
  induction l with
  | nil => rfl
  | cons a l ih =>
    cases ha : p a with
    | true =>
      rw [dropWhile_cons_of_pos ha, ih, fieldsFunc, if_pos ha]
      rfl
    | false => rw [dropWhile_cons_of_neg (by simp [ha])]

theorem fieldsFunc_of_dropWhile_eq_nil {l : List α} (h : l.dropWhile p = []) : fieldsFunc p [] l = [] := by
  rw [← fieldsFunc_dropWhile, h]
  rfl

theorem fieldsFunc_of_dropWhile_eq_cons {l l' : List α} {a : α} (h : l.dropWhile p = a :: l') :
    fieldsFunc p [] l = (a :: l'.takeWhile fun a => !p a) :: fieldsFunc p [] (l'.dropWhile fun a => !p a) := by
  have ha : p a = false := by
    have hhead := head?_dropWhile_not p l
    rwa [h] at hhead
  rw [← fieldsFunc_dropWhile, h, fieldsFunc, ha, if_neg Bool.false_ne_true, nil_append,
    fieldsFunc_of_ne (cons_ne_nil _ _)]
  rfl

end Fields

/-! ## Runes -/

structure Rune where
  code : Nat
  bytes : List UInt8
  deriving DecidableEq

/-- How many bytes follow the first one, and the bounds of the second. -/
def leading (b : UInt8) : Nat × UInt8 × UInt8 :=
  if b < 0xc2 then (0, 0x80, 0xbf)
  else if b < 0xe0 then (1, 0x80, 0xbf)
  else if b = 0xe0 then (2, 0xa0, 0xbf)
  else if b = 0xed then (2, 0x80, 0x9f)
  else if b < 0xf0 then (2, 0x80, 0xbf)
  else if b = 0xf0 then (3, 0x90, 0xbf)
  else if b < 0xf4 then (3, 0x80, 0xbf)
  else if b = 0xf4 then (3, 0x80, 0x8f)
  else (0, 0x80, 0xbf)

/-- `l` goes on with what has to follow `b`. -/
def Continues (b : UInt8) (l : List UInt8) : Prop :=
  (leading b).1 ≠ 0 ∧ (leading b).1 ≤ l.length ∧ (∀ c ∈ l.take 1, (leading b).2.1 ≤ c ∧ c ≤ (leading b).2.2) ∧
    ∀ c ∈ l.take (leading b).1, 0x80 ≤ c ∧ c ≤ 0xbf

instance (b : UInt8) (l : List UInt8) : Decidable (Continues b l) :=
  inferInstanceAs (Decidable (_ ∧ _ ∧ _ ∧ _))

/-- `utf8.DecodeRune`. -/
def decodeRune (b : UInt8) (l : List UInt8) : Rune :=
  if b < 0x80 then ⟨b.toNat, [b]⟩
  else if Continues b l then
    ⟨(l.take (leading b).1).foldl (fun r c => r * 64 + (c.toNat - 0x80)) (b.toNat % 2 ^ (6 - (leading b).1)),
      b :: l.take (leading b).1⟩
  else ⟨0xfffd, [b]⟩

def runesFrom : Nat → List UInt8 → List Rune
  | _, [] => []
  | skip + 1, _ :: l => runesFrom skip l
  | 0, b :: l => decodeRune b l :: runesFrom ((decodeRune b l).bytes.length - 1) l

/-- `[]rune(s)`. -/
def runes (l : List UInt8) : List Rune := runesFrom 0 l

/-- `utf8.AppendRune`. -/
def encodeRune (r : Nat) : List UInt8 :=
  if r < 0x80 then [.ofNat r]
  else if r < 0x800 then [.ofNat (0xc0 + r / 64), .ofNat (0x80 + r % 64)]
  else if 0xd800 ≤ r ∧ r < 0xe000 ∨ 0x110000 ≤ r then [0xef, 0xbf, 0xbd]
  else if r < 0x10000 then
    [.ofNat (0xe0 + r / 4096), .ofNat (0x80 + r / 64 % 64), .ofNat (0x80 + r % 64)]
  else
    [.ofNat (0xf0 + r / 262144), .ofNat (0x80 + r / 4096 % 64), .ofNat (0x80 + r / 64 % 64), .ofNat (0x80 + r % 64)]

/-- A rune of one byte, or one that has no byte below `0x80`. -/
def Rune.Whole (r : Rune) : Prop :=
  (∃ b : UInt8, b < 0x80 ∧ r = ⟨b.toNat, [b]⟩) ∨ 0x80 ≤ r.code ∧ r.bytes ≠ [] ∧ ∀ c ∈ r.bytes, 0x80 ≤ c

theorem decodeRune_bytes (b : UInt8) (l : List UInt8) : ∃ n ≤ l.length, (decodeRune b l).bytes = b :: l.take n := by
  unfold decodeRune
  split
  · exact ⟨0, Nat.zero_le _, rfl⟩
  · split
    · next hc => exact ⟨_, hc.2.1, rfl⟩
    · exact ⟨0, Nat.zero_le _, rfl⟩

theorem flatMap_runesFrom (skip : Nat) (l : List UInt8) : (runesFrom skip l).flatMap Rune.bytes = l.drop skip := by
  induction l generalizing skip with
  | nil => cases skip <;> rfl
  | cons b l ih =>
    cases skip with
    | zero =>
      obtain ⟨n, hle, hn⟩ := decodeRune_bytes b l
      rw [runesFrom, flatMap_cons, ih, hn, length_cons, Nat.add_sub_cancel, length_take_of_le hle,
        cons_append, take_append_drop, drop_zero]
    | succ skip => exact ih skip

theorem leading_cases (b : UInt8) (h : (leading b).1 ≠ 0) : (leading b).1 = 1 ∧ 0xc2 ≤ b.toNat ∧ b.toNat < 0xe0 ∨
    (leading b).1 = 2 ∧ 0xe0 ≤ b.toNat ∧ b.toNat < 0xf0 ∧ (b.toNat = 0xe0 → (leading b).2.1 = 0xa0) ∨
    (leading b).1 = 3 ∧ 0xf0 ≤ b.toNat ∧ b.toNat < 0xf5 ∧ (b.toNat = 0xf0 → (leading b).2.1 = 0x90) := by
  have hall : ∀ n < 256, (leading (.ofNat n)).1 ≠ 0 → (leading (.ofNat n)).1 = 1 ∧ 0xc2 ≤ n ∧ n < 0xe0 ∨
      (leading (.ofNat n)).1 = 2 ∧ 0xe0 ≤ n ∧ n < 0xf0 ∧ (n = 0xe0 → (leading (.ofNat n)).2.1 = 0xa0) ∨
      (leading (.ofNat n)).1 = 3 ∧ 0xf0 ≤ n ∧ n < 0xf5 ∧ (n = 0xf0 → (leading (.ofNat n)).2.1 = 0x90) := by
    decide +kernel
  have hb := hall b.toNat b.toNat_lt
  rw [UInt8.ofNat_toNat] at hb
  exact hb h

variable {l : List UInt8}

theorem le_code {b : UInt8} (h : Continues b l) :
    0x80 ≤ (l.take (leading b).1).foldl (fun r c => r * 64 + (c.toNat - 0x80)) (b.toNat % 2 ^ (6 - (leading b).1)) := by
  obtain ⟨hn, hlen, hlo, hall⟩ := h
  obtain ⟨hone, hb⟩ | ⟨htwo, hb, hb₁, he0⟩ | ⟨hthree, hb, hb₁, hf0⟩ := leading_cases b hn
  · rw [hone] at hlen ⊢
    match l, hlen with
    | c :: l, _ =>
      simp only [take_succ_cons, take_zero, foldl_cons, foldl_nil, Nat.reducePow, Nat.reduceSub]
      omega
  · rw [htwo] at hlen ⊢
    match l, hlen with
    | c :: d :: l, _ =>
      have hc := UInt8.le_iff_toNat_le.mp (hlo c mem_cons_self).1
      simp only [take_succ_cons, take_zero, foldl_cons, foldl_nil, Nat.reducePow, Nat.reduceSub]
      by_cases he : b.toNat = 0xe0
      · rw [he0 he, show (0xa0 : UInt8).toNat = 0xa0 from rfl] at hc
        omega
      · omega
  · rw [hthree] at hlen ⊢
    match l, hlen with
    | c :: d :: e :: l, _ =>
      have hc := UInt8.le_iff_toNat_le.mp (hlo c mem_cons_self).1
      simp only [take_succ_cons, take_zero, foldl_cons, foldl_nil, Nat.reducePow, Nat.reduceSub]
      by_cases hf : b.toNat = 0xf0
      · rw [hf0 hf, show (0x90 : UInt8).toNat = 0x90 from rfl] at hc
        omega
      · omega

theorem whole_decodeRune (b : UInt8) (l : List UInt8) : (decodeRune b l).Whole := by
  unfold decodeRune
  split
  · next hb => exact .inl ⟨b, hb, rfl⟩
  · next hb =>
    have hb : 0x80 ≤ b := UInt8.not_lt.mp hb
    split
    · next hc =>
      exact .inr ⟨le_code hc, cons_ne_nil _ _, forall_mem_cons.mpr ⟨hb, fun c hmem => (hc.2.2.2 c hmem).1⟩⟩
    · exact .inr ⟨Nat.le_of_ble_eq_true rfl, cons_ne_nil _ _, forall_mem_cons.mpr ⟨hb, nofun⟩⟩

theorem whole_runesFrom (skip : Nat) (l : List UInt8) : ∀ r ∈ runesFrom skip l, r.Whole := by
  induction l generalizing skip with
  | nil => cases skip <;> nofun
  | cons b l ih =>
    cases skip with
    | zero => exact forall_mem_cons.mpr ⟨whole_decodeRune b l, ih _⟩
    | succ skip => exact ih skip

theorem runes_of_lt (h : ∀ c ∈ l, c < 0x80) : runes l = l.map fun b => ⟨b.toNat, [b]⟩ := by
  unfold runes
  induction l with
  | nil => rfl
  | cons b l ih =>
    obtain ⟨hb, hl⟩ := forall_mem_cons.mp h
    have hone : decodeRune b l = ⟨b.toNat, [b]⟩ := if_pos hb
    rw [runesFrom, hone, map_cons]
    exact congrArg _ (ih hl)

theorem exists_le_encodeRune {r : Nat} (h : 0x80 ≤ r) : ∃ c ∈ encodeRune r, 0x80 ≤ c := by
  have hlast : ∀ n < 64, (0x80 : UInt8) ≤ .ofNat (0x80 + n) := by decide
  have hmod := hlast (r % 64) (Nat.mod_lt _ (by decide))
  unfold encodeRune
  rw [if_neg (Nat.not_lt.mpr h)]
  split
  · exact ⟨_, by simp, hmod⟩
  split
  · exact ⟨_, mem_cons_self, by decide⟩
  split
  · exact ⟨_, by simp, hmod⟩
  · exact ⟨_, by simp, hmod⟩

theorem fieldsFunc_runes {p : Nat → Bool} (hp : ∀ n, 0x80 ≤ n → p n = false) (l : List UInt8) :
    (fieldsFunc (fun r : Rune => p r.code) [] (runes l)).map (·.flatMap Rune.bytes) =
      fieldsFunc (fun b : UInt8 => p b.toNat) [] l := by
  have hflush : ∀ word : List Rune, (∀ r ∈ word, r.Whole) →
      (flush word).map (·.flatMap Rune.bytes) = flush (word.flatMap Rune.bytes) := by
    intro word hword
    cases word with
    | nil => rfl
    | cons r word =>
      have hne : r.bytes ≠ [] := by
        obtain ⟨b, -, rfl⟩ | ⟨-, hne, -⟩ := hword r mem_cons_self
        · exact cons_ne_nil _ _
        · exact hne
      rw [flush_of_ne (cons_ne_nil _ _), flush_of_ne (by simp [hne])]
      rfl
  have hgo : ∀ rs : List Rune, (∀ r ∈ rs, r.Whole) → ∀ word : List Rune, (∀ r ∈ word, r.Whole) →
      (fieldsFunc (fun r : Rune => p r.code) word rs).map (·.flatMap Rune.bytes) =
        fieldsFunc (fun b : UInt8 => p b.toNat) (word.flatMap Rune.bytes) (rs.flatMap Rune.bytes) := by
    intro rs hrs
    induction rs with
    | nil => exact hflush
    | cons r rs ih =>
      intro word hword
      obtain ⟨hr, hrest⟩ := forall_mem_cons.mp hrs
      have hlater := ih hrest (word ++ [r]) (forall_mem_append.mpr ⟨hword, forall_mem_singleton.mpr hr⟩)
      rw [flatMap_append, flatMap_singleton] at hlater
      rw [fieldsFunc, flatMap_cons]
      obtain ⟨b, -, rfl⟩ | ⟨hcode, -, hbytes⟩ := hr
      · rw [singleton_append, fieldsFunc]
        split
        · rw [map_append, hflush word hword, ih hrest [] nofun]
          rfl
        · exact hlater
      · rw [hp _ hcode, if_neg Bool.false_ne_true, hlater]
        exact (fieldsFunc_append (fun c hc => hp _ (UInt8.le_iff_toNat_le.mp (hbytes c hc))) _ _).symm
  have hall := hgo (runes l) (whole_runesFrom 0 l) [] nofun
  rwa [runes, flatMap_runesFrom] at hall

end PerfAgent.Text
