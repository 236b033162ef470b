import PerfAgent.Unwind.Leb128

/-!
# Where LEB128 decoding is exact

The readers refuse an eleventh byte, but not what of the tenth byte is above the 64 bits.  They are exact on the
numbers whose tenth byte says no more than bit 63, and on the shortest encoding of every 64-bit value.
-/

namespace PerfAgent.Unwind

open List

/-! ## Groups -/

/-- A complete sequence of groups: the last byte, and no other, is without the top bit. -/
inductive Groups : List UInt8 → Prop
  | last {b : UInt8} (hb : b &&& 0x80 = 0) : Groups [b]
  | cons {b : UInt8} {bs : List UInt8} (hb : b &&& 0x80 ≠ 0) (hbs : Groups bs) : Groups (b :: bs)

def groupsValue : List UInt8 → Nat
  | [] => 0
  | b :: bs => (b &&& 0x7f).toNat + 128 * groupsValue bs

theorem groupsValue_lt (bs : List UInt8) : groupsValue bs < 128 ^ bs.length := by
  induction bs with
  | nil => exact Nat.one_pos
  | cons b bs ih =>
    have hb := group_lt b
    rw [groupsValue, length_cons, Nat.pow_succ']
    omega

theorem Groups.append {l : List UInt8} (h : Groups l) (t : List UInt8) :
    ulebValue (l ++ t) = ulebValue l ∧ slebValue (l ++ t) = slebValue l ∧ lebLength (l ++ t) = l.length := by
  induction h with
  | last hb => simp [ulebValue, slebValue, lebLength, hb]
  | cons hb hbs ih =>
    obtain ⟨hu, hs, hn⟩ := ih
    simp only [cons_append, ulebValue, slebValue, lebLength, if_neg hb, hu, hs, hn, length_cons]
    exact ⟨trivial, trivial, Nat.add_comm _ _⟩

theorem toNat_of_last : ∀ {b : UInt8}, b &&& 0x80 = 0 →
    (b &&& 0x7f).toNat = b.toNat ∧ b.toNat < 128 ∧ (b &&& 0x40 ≠ 0 ↔ 64 ≤ b.toNat) := by
  intro b
  rw [← UInt8.ofNat_toNat (x := b)]
  exact (by decide +kernel : ∀ n < 256, (UInt8.ofNat n) &&& 0x80 = 0 →
    ((UInt8.ofNat n) &&& 0x7f).toNat = (UInt8.ofNat n).toNat ∧ (UInt8.ofNat n).toNat < 128 ∧
      ((UInt8.ofNat n) &&& 0x40 ≠ 0 ↔ 64 ≤ (UInt8.ofNat n).toNat)) b.toNat b.toNat_lt

theorem Groups.split {l : List UInt8} (h : Groups l) :
    ∃ p x, l = p ++ [x] ∧ x.toNat < 128 ∧ ulebValue l = groupsValue p + 128 ^ p.length * x.toNat ∧ slebValue l =
        groupsValue p + (128 ^ p.length : Nat) * ((x.toNat : Int) - if 64 ≤ x.toNat then 128 else 0) := by
  induction h with
  | @last b hb =>
    obtain ⟨hgroup, hlt, hsign⟩ := toNat_of_last hb
    refine ⟨[], b, rfl, hlt, ?_, ?_⟩
    · simp [ulebValue, groupsValue, hb, hgroup]
    · simp [slebValue, groupsValue, hb, hgroup, hsign]
  | @cons b bs hb hbs ih =>
    obtain ⟨p, x, rfl, hlt, hu, hs⟩ := ih
    refine ⟨b :: p, x, rfl, hlt, ?_, ?_⟩
    · rw [ulebValue, if_neg hb, hu, groupsValue, length_cons, Nat.pow_succ']
      ring
    · rw [slebValue, if_neg hb, hs, groupsValue, length_cons, Nat.pow_succ']
      push_cast
      ring

theorem Groups.fits {l : List UInt8} (h : Groups l) (hlen : l.length ≤ 10) :
    (ulebValue l < 2 ^ 64 ↔ ∀ x ∈ l[9]?, x.toNat ≤ 1) ∧
      ((-2 ^ 63 ≤ slebValue l ∧ slebValue l < 2 ^ 63) ↔ ∀ x ∈ l[9]?, x.toNat = 0 ∨ x.toNat = 0x7f) := by
  obtain ⟨p, x, rfl, hlt, hu, hs⟩ := h.split
  rw [hu, hs]
  have hp := groupsValue_lt p
  rw [List.length_append, length_singleton] at hlen
  obtain hnine | hnine : p.length = 9 ∨ p.length ≤ 8 := by omega
  · have hx : (p ++ [x])[9]? = some x := by
      rw [← hnine, getElem?_concat_length]
    rw [hnine] at hp ⊢
    rw [hx]
    simp only [Option.mem_some_iff, forall_eq']
    constructor
    · omega
    · split <;> omega
  · have hx : (p ++ [x])[9]? = none := by
      rw [List.getElem?_eq_none_iff, List.length_append, length_singleton]
      omega
    have hpow : 128 ^ p.length ≤ 2 ^ 56 := Nat.pow_le_pow_right (by decide) hnine
    have hu : 128 ^ p.length * x.toNat ≤ 128 ^ p.length * 127 := Nat.mul_le_mul_left _ (by omega)
    have hsign : -64 ≤ (x.toNat : Int) - (if 64 ≤ x.toNat then 128 else 0) ∧
        (x.toNat : Int) - (if 64 ≤ x.toNat then 128 else 0) ≤ 63 := by
      split <;> omega
    have hnonneg : (0 : Int) ≤ (128 ^ p.length : Nat) := Int.natCast_nonneg _
    have hle := Int.mul_le_mul_of_nonneg_left hsign.1 hnonneg
    have hge := Int.mul_le_mul_of_nonneg_left hsign.2 hnonneg
    rw [hx]
    generalize 128 ^ p.length = m at *
    refine ⟨iff_of_true (by omega) nofun, iff_of_true (by constructor <;> omega) nofun⟩

/-! ## What is read -/

theorem uleb128From_groups {bs : List UInt8} {i n : Nat} {shift result v : UInt64}
    (h : uleb128From bs i shift result = .ok (v, n)) :
    ∃ l t, bs = l ++ t ∧ Groups l ∧ n = i + l.length ∧ n ≤ 10 := by
  induction bs generalizing i shift result with
  | nil => cases h
  | cons b bs ih =>
    rw [uleb128From] at h
    split at h
    · cases h
    · dsimp only at h
      split at h
      · next hlast =>
        cases h
        exact ⟨[b], bs, rfl, .last hlast, rfl, by omega⟩
      · next hmore =>
        obtain ⟨l, t, rfl, hl, hn, hle⟩ := ih h
        exact ⟨b :: l, t, rfl, .cons hmore hl, by rw [hn, length_cons]; omega, hle⟩

theorem sleb128From_groups {bs : List UInt8} {i n : Nat} {shift : UInt64} {result v : Int64}
    (h : sleb128From bs i shift result = .ok (v, n)) :
    ∃ l t, bs = l ++ t ∧ Groups l ∧ n = i + l.length ∧ n ≤ 10 := by
  induction bs generalizing i shift result with
  | nil => cases h
  | cons b bs ih =>
    rw [sleb128From] at h
    split at h
    · cases h
    · dsimp only at h
      split at h
      · next hlast =>
        refine ⟨[b], bs, rfl, .last hlast, ?_, ?_⟩
        · split at h <;> cases h <;> rfl
        · split at h <;> cases h <;> omega
      · next hmore =>
        obtain ⟨l, t, rfl, hl, hn, hle⟩ := ih h
        exact ⟨b :: l, t, rfl, .cons hmore hl, by rw [hn, length_cons]; omega, hle⟩

theorem Groups.uleb128From_ok {l : List UInt8} (h : Groups l) (t : List UInt8) {i : Nat} (hlen : i + l.length ≤ 10)
    (shift result : UInt64) : ∃ v, uleb128From (l ++ t) i shift result = .ok (v, i + l.length) := by
  induction h generalizing i shift result with
  | @last b hb =>
    rw [length_singleton] at hlen
    rw [singleton_append, uleb128From, if_neg (by omega), if_pos hb]
    exact ⟨_, rfl⟩
  | @cons b bs hb hbs ih =>
    rw [length_cons] at hlen
    rw [cons_append, uleb128From, if_neg (by omega), if_neg hb]
    obtain ⟨v, hv⟩ := ih (i := i + 1) (by omega) (shift + 7) (result ||| ((b &&& 0x7f).toUInt64 <<< shift))
    exact ⟨v, by rw [hv, length_cons]; congr 2; omega⟩

theorem Groups.sleb128From_ok {l : List UInt8} (h : Groups l) (t : List UInt8) {i : Nat} (hlen : i + l.length ≤ 10)
    (shift : UInt64) (result : Int64) : ∃ v, sleb128From (l ++ t) i shift result = .ok (v, i + l.length) := by
  induction h generalizing i shift result with
  | @last b hb =>
    rw [length_singleton] at hlen
    rw [singleton_append, sleb128From, if_neg (by omega)]
    dsimp only
    rw [if_pos hb]
    split <;> exact ⟨_, rfl⟩
  | @cons b bs hb hbs ih =>
    rw [length_cons] at hlen
    rw [cons_append, sleb128From, if_neg (by omega)]
    dsimp only
    rw [if_neg hb]
    obtain ⟨v, hv⟩ := ih (i := i + 1) (by omega) (shift + 7) (result ||| ((b &&& 0x7f).toUInt64 <<< shift).toInt64)
    exact ⟨v, by rw [hv, length_cons]; congr 2; omega⟩

theorem decodeULEB128_groups {b : Slice UInt8} {v : UInt64} {n : Nat} (h : decodeULEB128 b = .ok (v, n)) :
    Groups (b.toList.take n) ∧ n ≤ 10 ∧ v.toNat = ulebValue (b.toList.take n) % 2 ^ 64 := by
  obtain ⟨l, t, hb, hl, hn, hle⟩ := uleb128From_groups h
  rw [Nat.zero_add] at hn
  have htake : b.toList.take n = l := by rw [hb, hn, take_left]
  rw [htake, ← (hl.append t).1, ← hb]
  exact ⟨hl, hle, (decodeULEB128_exact (prefix_refl _) h).1⟩

theorem decodeSLEB128_groups {b : Slice UInt8} {v : Int64} {n : Nat} (h : decodeSLEB128 b = .ok (v, n)) :
    Groups (b.toList.take n) ∧ n ≤ 10 ∧ v.toInt = (slebValue (b.toList.take n)).bmod (2 ^ 64) := by
  obtain ⟨l, t, hb, hl, hn, hle⟩ := sleb128From_groups h
  rw [Nat.zero_add] at hn
  have htake : b.toList.take n = l := by rw [hb, hn, take_left]
  rw [htake, ← (hl.append t).2.1, ← hb]
  exact ⟨hl, hle, (decodeSLEB128_exact (prefix_refl _) h).1⟩

theorem Groups.decodeULEB128_ok {l : List UInt8} (h : Groups l) (hlen : l.length ≤ 10) {b : Slice UInt8}
    (hb : l <+: b.toList) : ∃ v, decodeULEB128 b = .ok (v, l.length) := by
  obtain ⟨t, ht⟩ := hb
  rw [decodeULEB128, ← ht]
  obtain ⟨v, hv⟩ := h.uleb128From_ok t (i := 0) (by omega) 0 0
  exact ⟨v, by rw [hv, Nat.zero_add]⟩

theorem Groups.decodeSLEB128_ok {l : List UInt8} (h : Groups l) (hlen : l.length ≤ 10) {b : Slice UInt8}
    (hb : l <+: b.toList) : ∃ v, decodeSLEB128 b = .ok (v, l.length) := by
  obtain ⟨t, ht⟩ := hb
  rw [decodeSLEB128, ← ht]
  obtain ⟨v, hv⟩ := h.sleb128From_ok t (i := 0) (by omega) 0 0
  exact ⟨v, by rw [hv, Nat.zero_add]⟩

/-! ## Exact numbers -/

def DecodesULEB (b : Slice UInt8) : Prop :=
  ∀ v n, decodeULEB128 b = .ok (v, n) → Groups (b.toList.take n) ∧ v.toNat = ulebValue (b.toList.take n)

def DecodesSLEB (b : Slice UInt8) : Prop :=
  ∀ v n, decodeSLEB128 b = .ok (v, n) → Groups (b.toList.take n) ∧ v.toInt = slebValue (b.toList.take n)

/-- The tenth byte, if the number that the bytes start with has ten. -/
def Tenth (bs : List UInt8) (x : UInt8) : Prop := bs[9]? = some x ∧ Groups (bs.take 10)

theorem tenth_iff {bs : List UInt8} {n : Nat} (h : Groups (bs.take n)) (hn : n ≤ 10) (x : UInt8) :
    Tenth bs x ↔ (bs.take n)[9]? = some x := by
  obtain rfl | hlt := Nat.eq_or_lt_of_le hn
  · rw [getElem?_take_of_lt (by decide)]
    exact and_iff_left h
  · rw [getElem?_eq_none (l := bs.take n) (by rw [length_take]; omega)]
    refine iff_of_false (fun ⟨hx, hten⟩ => ?_) nofun
    -- the ten groups end where the fewer ones do
    have hsplit : bs.take 10 = bs.take n ++ (bs.drop n).take (10 - n) := by
      rw [← take_add, Nat.add_sub_cancel' hn]
    have hlen := (h.append ((bs.drop n).take (10 - n))).2.2
    have hten := (hten.append []).2.2
    rw [append_nil, hsplit, hlen, List.length_append, length_take, length_take, length_drop] at hten
    obtain ⟨hlt', -⟩ := List.getElem?_eq_some_iff.mp hx
    omega

theorem decodesULEB_iff (b : Slice UInt8) : DecodesULEB b ↔ ∀ x, Tenth b.toList x → x.toNat ≤ 1 := by
  constructor
  · intro hexact x hx
    have hten : (b.toList.take 10).length = 10 := by
      obtain ⟨hlt, -⟩ := List.getElem?_eq_some_iff.mp hx.1
      rw [length_take]
      omega
    obtain ⟨v, hv⟩ := hx.2.decodeULEB128_ok hten.le ( take_prefix 10 b.toList)
    rw [hten] at hv
    obtain ⟨hgroups, hvalue⟩ := hexact v 10 hv
    refine (hgroups.fits hten.le).1.mp (hvalue ▸ v.toNat_lt) x ?_
    exact (tenth_iff hgroups (Nat.le_refl 10) x).mp hx
  · intro hcond v n hv
    obtain ⟨hgroups, hn, hvalue⟩ := decodeULEB128_groups hv
    refine ⟨hgroups, ?_⟩
    rw [hvalue, Nat.mod_eq_of_lt]
    refine (hgroups.fits ((length_take_le n b.toList).trans hn)).1.mpr fun x hx => ?_
    exact hcond x ((tenth_iff hgroups hn x).mpr hx)

theorem decodesSLEB_iff (b : Slice UInt8) : DecodesSLEB b ↔ ∀ x, Tenth b.toList x → x.toNat = 0 ∨ x.toNat = 0x7f := by
  constructor
  · intro hexact x hx
    have hten : (b.toList.take 10).length = 10 := by
      obtain ⟨hlt, -⟩ := List.getElem?_eq_some_iff.mp hx.1
      rw [length_take]
      omega
    obtain ⟨v, hv⟩ := hx.2.decodeSLEB128_ok hten.le ( take_prefix 10 b.toList)
    rw [hten] at hv
    obtain ⟨hgroups, hvalue⟩ := hexact v 10 hv
    refine (hgroups.fits hten.le).2.mp (hvalue ▸ ⟨v.le_toInt, v.toInt_lt⟩) x ?_
    exact (tenth_iff hgroups (Nat.le_refl 10) x).mp hx
  · intro hcond v n hv
    obtain ⟨hgroups, hn, hvalue⟩ := decodeSLEB128_groups hv
    have hfits := (hgroups.fits ((length_take_le n b.toList).trans hn)).2.mpr fun x hx =>
      hcond x ((tenth_iff hgroups hn x).mpr hx)
    refine ⟨hgroups, ?_⟩
    rw [hvalue]
    exact Int.bmod_eq_of_le (by omega) (by omega)

/-! ## The shortest encoding -/

structure Shortest {α : Type} (value : List UInt8 → α) (v : α) (l : List UInt8) : Prop where
  groups : Groups l
  value_eq : value l = v
  least : ∀ l', Groups l' → value l' = v → l.length ≤ l'.length

theorem exists_shortest {α : Type} {value : List UInt8 → α} {v : α} {l : List UInt8} (h : Groups l)
    (hv : value l = v) : ∃ l, Shortest value v l := by
  classical
  have hex : ∃ n l, Groups l ∧ value l = v ∧ l.length = n := ⟨_, l, h, hv, rfl⟩
  obtain ⟨l', hl', hv', hlen⟩ := Nat.find_spec hex
  refine ⟨l', hl', hv', fun m hm hmv => ?_⟩
  rw [hlen]
  exact Nat.find_min' hex ⟨m, hm, hmv, rfl⟩

theorem group_of_lt : ∀ {d : Nat}, d < 128 → (UInt8.ofNat d &&& 0x80 = 0 ∧ (UInt8.ofNat d &&& 0x7f).toNat = d ∧
    (UInt8.ofNat d &&& 0x40 ≠ 0 ↔ 64 ≤ d)) ∧
      UInt8.ofNat (d + 128) &&& 0x80 ≠ 0 ∧ (UInt8.ofNat (d + 128) &&& 0x7f).toNat = d := by
  intro d
  exact (by decide +kernel : ∀ d < 128, (UInt8.ofNat d &&& 0x80 = 0 ∧ (UInt8.ofNat d &&& 0x7f).toNat = d ∧
    (UInt8.ofNat d &&& 0x40 ≠ 0 ↔ 64 ≤ d)) ∧
      UInt8.ofNat (d + 128) &&& 0x80 ≠ 0 ∧ (UInt8.ofNat (d + 128) &&& 0x7f).toNat = d) d

theorem exists_uleb (k : Nat) {v : Nat} (hv : v < 128 ^ (k + 1)) :
    ∃ l, Groups l ∧ ulebValue l = v ∧ l.length = k + 1 := by
  induction k generalizing v with
  | zero =>
    obtain ⟨⟨hlast, hgroup, -⟩, -⟩ := group_of_lt (d := v) hv
    exact ⟨[UInt8.ofNat v], .last hlast, by rw [ulebValue, if_pos hlast, hgroup], rfl⟩
  | succ k ih =>
    rw [Nat.pow_succ] at hv
    obtain ⟨l, hl, hvalue, hlen⟩ := ih (v := v / 128) (by omega)
    obtain ⟨-, hmore, hgroup⟩ := group_of_lt (d := v % 128) (by omega)
    refine ⟨UInt8.ofNat (v % 128 + 128) :: l, .cons hmore hl, ?_, by rw [length_cons, hlen]⟩
    rw [ulebValue, if_neg hmore, hgroup, hvalue]
    omega

theorem exists_sleb (k : Nat) {v : Int} (hle : -(64 * (128 ^ k : Nat)) ≤ v) (hlt : v < 64 * (128 ^ k : Nat)) :
    ∃ l, Groups l ∧ slebValue l = v ∧ l.length = k + 1 := by
  induction k generalizing v with
  | zero =>
    obtain ⟨⟨hlast, hgroup, hsign⟩, -⟩ := group_of_lt (d := (v % 128).toNat) (by omega)
    refine ⟨[UInt8.ofNat (v % 128).toNat], .last hlast, ?_, rfl⟩
    rw [slebValue, if_pos hlast, hgroup]
    simp only [hsign]
    split <;> omega
  | succ k ih =>
    rw [Nat.pow_succ] at hle hlt
    obtain ⟨l, hl, hvalue, hlen⟩ := ih (v := v / 128) (by omega) (by omega)
    obtain ⟨-, hmore, hgroup⟩ := group_of_lt (d := (v % 128).toNat) (by omega)
    refine ⟨UInt8.ofNat ((v % 128).toNat + 128) :: l, .cons hmore hl, ?_, by rw [length_cons, hlen]⟩
    rw [slebValue, if_neg hmore, hgroup, hvalue]
    omega

theorem Shortest.decodeULEB128_eq {v : UInt64} {l : List UInt8} (h : Shortest ulebValue v.toNat l)
    {b : Slice UInt8} (hb : l <+: b.toList) : decodeULEB128 b = .ok (v, l.length) := by
  obtain ⟨m, hm, hmv, hmlen⟩ := exists_uleb 9 (v := v.toNat) (v.toNat_lt.trans (by decide))
  obtain ⟨w, hw⟩ := h.groups.decodeULEB128_ok ((h.least m hm hmv).trans hmlen.le) hb
  have hvalue := (decodeULEB128_exact (prefix_refl _) hw).1
  obtain ⟨t, ht⟩ := hb
  rw [← ht, (h.groups.append t).1, h.value_eq, Nat.mod_eq_of_lt v.toNat_lt] at hvalue
  rw [hw, UInt64.toNat_inj.mp hvalue]

theorem Shortest.decodeSLEB128_eq {v : Int64} {l : List UInt8} (h : Shortest slebValue v.toInt l)
    {b : Slice UInt8} (hb : l <+: b.toList) : decodeSLEB128 b = .ok (v, l.length) := by
  have hle := v.le_toInt
  have hlt := v.toInt_lt
  obtain ⟨m, hm, hmv, hmlen⟩ := exists_sleb 9 (v := v.toInt) (by omega) (by omega)
  obtain ⟨w, hw⟩ := h.groups.decodeSLEB128_ok ((h.least m hm hmv).trans hmlen.le) hb
  have hvalue := (decodeSLEB128_exact (prefix_refl _) hw).1
  obtain ⟨t, ht⟩ := hb
  rw [← ht, (h.groups.append t).2.1, h.value_eq, Int.bmod_eq_of_le (by omega) (by omega)] at hvalue
  rw [hw, Int64.toInt_inj.mp hvalue]

/-- The readers are exact on a slice just where the tenth byte of its number says no more than bit 63; the
shortest encoding of a 64-bit number is always read back, whatever follows it. -/
theorem decoding_exact_iff (b : Slice UInt8) : (DecodesULEB b ↔ ∀ x, Tenth b.toList x → x.toNat ≤ 1) ∧
      (DecodesSLEB b ↔ ∀ x, Tenth b.toList x → x.toNat = 0 ∨ x.toNat = 0x7f) ∧
      (∀ v : UInt64, (∃ l, Shortest ulebValue v.toNat l) ∧
        ∀ l (b : Slice UInt8), Shortest ulebValue v.toNat l → l <+: b.toList → decodeULEB128 b = .ok (v, l.length)) ∧
      ∀ v : Int64, (∃ l, Shortest slebValue v.toInt l) ∧
        ∀ l (b : Slice UInt8), Shortest slebValue v.toInt l → l <+: b.toList → decodeSLEB128 b = .ok (v, l.length) := by
  refine ⟨decodesULEB_iff b, decodesSLEB_iff b, fun v => ⟨?_, fun l b h hb => h.decodeULEB128_eq hb⟩,
    fun v => ⟨?_, fun l b h hb => h.decodeSLEB128_eq hb⟩⟩
  · obtain ⟨m, hm, hmv, -⟩ := exists_uleb 9 (v := v.toNat) (v.toNat_lt.trans (by decide))
    exact exists_shortest hm hmv
  · have hle := v.le_toInt
    have hlt := v.toInt_lt
    obtain ⟨m, hm, hmv, -⟩ := exists_sleb 9 (v := v.toInt) (by omega) (by omega)
    exact exists_shortest hm hmv

/-- Nine bytes with nothing but the top bit, and a tenth one with bit 64: the number is cut to 0, where one byte
more is refused. -/
theorem decodeULEB128_cuts :
    ¬ DecodesULEB (Slice.ofList [0x80, 0x80, 0x80, 0x80, 0x80, 0x80, 0x80, 0x80, 0x80, 0x02] (by decide)) := by
  intro h
  exact absurd (h 0 10 (by decide +kernel)).2 (by decide +kernel)

end PerfAgent.Unwind
