import Mathlib.Data.List.Basic
import Mathlib.Tactic.NormNum.Basic

/-!
# Calls that may panic, and slices

What a call of a language with run-time checks comes to: a value, an error, or a panic.  A
call that has not returned within the steps it was given is `outOfFuel`.

A slice is a window on a block of memory that may go on after it: an index is checked against
the length of the slice, and the end of a slice expression against its capacity.
-/

universe u v

namespace PerfAgent

open List

inductive Outcome (ε : Type u) (α : Type v) where
  | ok (a : α)
  | error (e : ε)
  | panic
  | outOfFuel
deriving DecidableEq

namespace Outcome

variable {ε : Type u} {α β : Type v}

instance : Monad (Outcome ε) where
  pure a := ok a
  bind x f :=
    match x with
    | ok a => f a
    | error e => error e
    | panic => panic
    | outOfFuel => outOfFuel

theorem bind_eq_ok {x : Outcome ε α} {f : α → Outcome ε β} {b : β} : x >>= f = ok b ↔ ∃ a, x = ok a ∧ f a = ok b := by
  cases x with
  | ok a =>
    constructor
    · exact fun h => ⟨a, rfl, h⟩
    · rintro ⟨a, heq, h⟩
      cases heq
      exact h
  | error e => exact ⟨nofun, nofun⟩
  | panic => exact ⟨nofun, nofun⟩
  | outOfFuel => exact ⟨nofun, nofun⟩

def mapError (g : ε → ε) : Outcome ε α → Outcome ε α
  | ok a => ok a
  | error e => error (g e)
  | panic => panic
  | outOfFuel => outOfFuel

theorem mapError_eq_ok {g : ε → ε} {x : Outcome ε α} {a : α} : x.mapError g = ok a ↔ x = ok a := by
  cases x <;> simp [mapError]

def any (p : α → Bool) : Outcome ε α → Bool
  | ok a => p a
  | _ => false

theorem exists_of_any {x : Outcome ε α} {p : α → Bool} (h : x.any p = true) : ∃ a, x = ok a ∧ p a = true := by
  cases x with
  | ok a => exact ⟨a, rfl, h⟩
  | error e => cases h
  | panic => cases h
  | outOfFuel => cases h

def toOption : Outcome ε α → Option α
  | ok a => some a
  | _ => none

@[simp] theorem toOption_eq_some {x : Outcome ε α} {a : α} : x.toOption = some a ↔ x = ok a := by
  cases x <;> simp [toOption]

/-! ## Calls that return -/

def Returns : Outcome ε α → Prop
  | ok _ => True
  | error _ => True
  | panic => False
  | outOfFuel => False

instance (x : Outcome ε α) : Decidable x.Returns :=
  match x with
  | ok _ => inferInstanceAs (Decidable True)
  | error _ => inferInstanceAs (Decidable True)
  | panic => inferInstanceAs (Decidable False)
  | outOfFuel => inferInstanceAs (Decidable False)

theorem Returns.bind {x : Outcome ε α} {f : α → Outcome ε β} (hx : x.Returns)
    (hf : ∀ a, x = ok a → (f a).Returns) : (x >>= f).Returns := by
  cases x with
  | ok a => exact hf a rfl
  | error e => trivial
  | panic => exact hx
  | outOfFuel => exact hx

theorem Returns.ite {x y : Outcome ε α} {P : Prop} [Decidable P] (hx : P → x.Returns) (hy : ¬P → y.Returns) :
    (if P then x else y).Returns := by
  split
  · next h => exact hx h
  · next h => exact hy h

theorem returns_bind_iff {x : Outcome ε α} {f : α → Outcome ε β} :
    (x >>= f).Returns ↔ x.Returns ∧ ∀ a, x = ok a → (f a).Returns := by
  refine ⟨fun h => ?_, fun h => h.1.bind h.2⟩
  cases x with
  | ok a =>
    refine ⟨trivial, ?_⟩
    rintro _ ⟨⟩
    exact h
  | error e => exact ⟨trivial, nofun⟩
  | panic => exact h.elim
  | outOfFuel => exact h.elim

theorem returns_mapError {g : ε → ε} {x : Outcome ε α} : (x.mapError g).Returns ↔ x.Returns := by
  cases x <;> rfl

/-- The call returns, and a value that it returns meets `Q`. -/
def Ensures (Q : α → Prop) : Outcome ε α → Prop
  | ok a => Q a
  | error _ => True
  | panic => False
  | outOfFuel => False

namespace Ensures

variable {Q : α → Prop} {R : β → Prop}

theorem returns {x : Outcome ε α} (h : x.Ensures Q) : x.Returns := by
  cases x with
  | ok a => trivial
  | error e => trivial
  | panic => exact h
  | outOfFuel => exact h

theorem of_eq {x : Outcome ε α} (h : x.Ensures Q) {a : α} (hx : x = ok a) : Q a := by
  subst hx
  exact h

theorem of_returns {x : Outcome ε α} (h : x.Returns) (hQ : ∀ a, x = ok a → Q a) : x.Ensures Q := by
  cases x with
  | ok a => exact hQ a rfl
  | error e => trivial
  | panic => exact h
  | outOfFuel => exact h

theorem bind {x : Outcome ε α} {f : α → Outcome ε β} (hx : x.Ensures Q)
    (hf : ∀ a, Q a → (f a).Ensures R) : (x >>= f).Ensures R := by
  cases x with
  | ok a => exact hf a hx
  | error e => trivial
  | panic => exact hx
  | outOfFuel => exact hx

theorem ite {x y : Outcome ε α} {P : Prop} [Decidable P] (hx : P → x.Ensures Q) (hy : ¬P → y.Ensures Q) :
    (if P then x else y).Ensures Q := by
  split
  · next h => exact hx h
  · next h => exact hy h

end Ensures

/-! ## More fuel -/

/-- The second outcome is what the first comes to when it is given more fuel. -/
def Upto (x y : Outcome ε α) : Prop := x = outOfFuel ∨ x = y

namespace Upto

theorem refl (x : Outcome ε α) : Upto x x := .inr rfl

theorem bind {x y : Outcome ε α} {f g : α → Outcome ε β} (h : Upto x y) (hfg : ∀ a, Upto (f a) (g a)) :
    Upto (x >>= f) (y >>= g) := by
  obtain rfl | rfl := h
  · exact .inl rfl
  · cases x with
    | ok a => exact hfg a
    | error e => exact .inr rfl
    | panic => exact .inr rfl
    | outOfFuel => exact .inr rfl

theorem mapError {x y : Outcome ε α} (h : Upto x y) (g : ε → ε) : Upto (x.mapError g) (y.mapError g) := by
  obtain rfl | rfl := h
  · exact .inl rfl
  · exact .inr rfl

theorem ite {x y x' y' : Outcome ε α} {P : Prop} [Decidable P] (h : Upto x y) (h' : Upto x' y') :
    Upto (if P then x else x') (if P then y else y') := by
  split
  · exact h
  · exact h'

theorem eq_of_returns {x y : Outcome ε α} (h : Upto x y) (hx : x.Returns) : x = y := by
  obtain rfl | heq := h
  · exact hx.elim
  · exact heq

end Upto

end Outcome

/-! ## Slices -/

/-- A slice: its first `len` elements, and what follows them up to its capacity. -/
structure Slice (α : Type u) where
  block : List α
  len : Nat
  len_le : len ≤ block.length
  /-- Lengths are machine integers. -/
  cap_lt : block.length < 2 ^ 63
deriving DecidableEq

namespace Slice

variable {ε : Type u} {α : Type u}

def toList (s : Slice α) : List α := s.block.take s.len

@[simp] theorem length_toList (s : Slice α) : s.toList.length = s.len := by
  simp [toList, s.len_le]

def ofList (l : List α) (h : l.length < 2 ^ 63) : Slice α where
  block := l
  len := l.length
  len_le := le_refl _
  cap_lt := h

/-- The window `[lo, hi)` of the block. -/
def window (s : Slice α) (lo hi : Nat) (h : hi ≤ s.block.length) : Slice α where
  block := s.block.drop lo
  len := hi - lo
  len_le := by
    rw [length_drop]
    omega
  cap_lt := by
    have := s.cap_lt
    rw [length_drop]
    omega

/-- `s[i]`. -/
def index (s : Slice α) (i : Int) : Outcome ε α :=
  if 0 ≤ i then
    match s.toList[i.toNat]? with
    | some a => .ok a
    | none => .panic
  else .panic

/-- `s[lo:hi]`. -/
def sub (s : Slice α) (lo hi : Int) : Outcome ε (Slice α) :=
  if h : 0 ≤ lo ∧ lo ≤ hi ∧ hi.toNat ≤ s.block.length then .ok (s.window lo.toNat hi.toNat h.2.2)
  else .panic

/-- `s[lo:]`. -/
def suffix (s : Slice α) (lo : Int) : Outcome ε (Slice α) := s.sub lo s.len

theorem index_returns {s : Slice α} {i : Int} (h₀ : 0 ≤ i) (h : i < s.len) : (s.index i : Outcome ε α).Returns := by
  have hlt : i.toNat < s.toList.length := by
    rw [length_toList]
    omega
  rw [index, if_pos h₀, getElem?_eq_getElem hlt]
  trivial

theorem sub_returns_iff {s : Slice α} {lo hi : Int} :
    (s.sub lo hi : Outcome ε (Slice α)).Returns ↔ 0 ≤ lo ∧ lo ≤ hi ∧ hi ≤ s.block.length := by
  unfold sub
  split
  · next h => exact ⟨fun _ => by omega, fun _ => trivial⟩
  · next h => exact ⟨False.elim, fun h' => h (by omega)⟩

theorem sub_eq_ok {s : Slice α} {lo hi : Int} {t : Slice α} (h : s.sub lo hi = (.ok t : Outcome ε _)) :
    0 ≤ lo ∧ lo ≤ hi ∧ hi ≤ s.block.length ∧ (t.len : Int) = hi - lo ∧
      (t.block.length : Int) = s.block.length - lo := by
  unfold sub at h
  split at h
  · next hb =>
    cases h
    simp only [window, length_drop]
    omega
  · cases h

theorem toList_sub {s t : Slice α} {lo hi : Int} (h : s.sub lo hi = (.ok t : Outcome ε _)) (hhi : hi ≤ s.len) :
    t.toList <+: s.toList.drop lo.toNat := by
  unfold sub at h
  split at h
  · next hb =>
    cases h
    unfold toList window
    dsimp only
    rw [drop_take]
    exact take_prefix_take_left (by omega)
  · cases h

theorem toList_suffix {s t : Slice α} {lo : Int} (h : s.suffix lo = (.ok t : Outcome ε _)) :
    t.toList = s.toList.drop lo.toNat := by
  obtain ⟨h₀, hle, -, hlen, -⟩ := sub_eq_ok h
  refine (toList_sub h (Int.le_refl _)).eq_of_length ?_
  rw [length_toList, length_drop, length_toList]
  omega

theorem sub_sub {s t : Slice α} {lo hi : Int} (h : s.sub lo hi = (.ok t : Outcome ε _)) (n : Nat) :
    (t.sub 0 n : Outcome ε _) = s.sub lo (lo + n) := by
  obtain ⟨h₀, hle, hhi, -, hblock⟩ := sub_eq_ok h
  unfold sub at h
  split at h
  · cases h
    unfold sub
    by_cases hn : lo + n ≤ s.block.length
    · rw [dif_pos ⟨by omega, by omega, by omega⟩, dif_pos ⟨by omega, by omega, by omega⟩]
      unfold window
      congr 2
      omega
    · rw [dif_neg (by omega), dif_neg (by omega)]
  · cases h

theorem suffix_returns_iff {s : Slice α} {lo : Int} :
    (s.suffix lo : Outcome ε (Slice α)).Returns ↔ 0 ≤ lo ∧ lo ≤ s.len := by
  have := s.len_le
  rw [suffix, sub_returns_iff]
  omega

theorem suffix_eq_ok {s : Slice α} {lo : Int} {t : Slice α} (h : s.suffix lo = (.ok t : Outcome ε _)) :
    0 ≤ lo ∧ lo ≤ s.len ∧ (t.len : Int) = s.len - lo := by
  obtain ⟨h₀, hle, -, hlen, -⟩ := sub_eq_ok h
  exact ⟨h₀, hle, hlen⟩

theorem sub_ensures {s : Slice α} {lo hi : Int} (h₀ : 0 ≤ lo) (hle : lo ≤ hi) (hhi : hi ≤ s.block.length) :
    (s.sub lo hi : Outcome ε (Slice α)).Ensures fun t =>
      (t.len : Int) = hi - lo ∧ t.block.length ≤ s.block.length := by
  refine .of_returns (sub_returns_iff.mpr ⟨h₀, hle, hhi⟩) ?_
  intro t ht
  have := sub_eq_ok ht
  omega

theorem suffix_ensures {s : Slice α} {lo : Int} (h₀ : 0 ≤ lo) (hle : lo ≤ s.len) :
    (s.suffix lo : Outcome ε (Slice α)).Ensures fun t =>
      (t.len : Int) = s.len - lo ∧ t.block.length ≤ s.block.length := by
  have := s.len_le
  exact sub_ensures h₀ hle (by omega)

end Slice

end PerfAgent
