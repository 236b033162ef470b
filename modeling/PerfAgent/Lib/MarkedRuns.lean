import Mathlib.Data.List.Basic
import Mathlib.Data.List.Induction

/-!
# Runs of marked elements

Marks on the positions of a list.  They spread from the anchors over the positions that absorb them, in both
directions, and each maximal run of marked elements is then replaced by one element.
-/

universe u

namespace PerfAgent

open List

/-! ## Positions joined to an anchor -/

section Joined

variable {anchor absorb anchor' absorb' : Nat → Bool} {k n : Nat}

/-- There is an anchor, and every position from it to `k` absorbs. -/
def Joined (anchor absorb : Nat → Bool) (k : Nat) : Prop :=
  ∃ a, anchor a = true ∧ ∀ m, (k ≤ m ∧ m < a) ∨ (a < m ∧ m ≤ k) → absorb m = true

theorem Joined.of_anchor (h : anchor k = true) : Joined anchor absorb k := ⟨k, h, fun m hm => by omega⟩

theorem Joined.pred (h : Joined anchor absorb (k + 1)) (hk : absorb k = true) : Joined anchor absorb k := by
  obtain ⟨a, ha, hpath⟩ := h
  refine ⟨a, ha, fun m hm => ?_⟩
  by_cases hmk : m = k
  · rwa [hmk]
  · exact hpath m (by omega)

theorem Joined.succ (h : Joined anchor absorb k) (hk : absorb (k + 1) = true) : Joined anchor absorb (k + 1) := by
  obtain ⟨a, ha, hpath⟩ := h
  refine ⟨a, ha, fun m hm => ?_⟩
  by_cases hmk : m = k + 1
  · rwa [hmk]
  · exact hpath m (by omega)

/-- A set that has the anchors and is closed under absorption by a neighbour has what is joined to them. -/
theorem Joined.mem {S : Nat → Prop} (h : Joined anchor absorb k) (hanchor : ∀ a, anchor a = true → S a)
    (hpred : ∀ j, S (j + 1) → absorb j = true → S j) (hsucc : ∀ j, S j → absorb (j + 1) = true → S (j + 1)) :
    S k := by
  obtain ⟨a, ha, hpath⟩ := h
  rcases Nat.le_total k a with hle | hle
  · obtain ⟨d, rfl⟩ := Nat.exists_eq_add_of_le hle
    have hdown : ∀ i, i ≤ d → S (k + (d - i)) := fun i hi => by
      induction i with
      | zero => exact hanchor _ ha
      | succ i ih =>
        have hs := ih (by omega)
        rw [show k + (d - i) = k + (d - (i + 1)) + 1 by omega] at hs
        exact hpred _ hs (hpath _ (by omega))
    simpa using hdown d (Nat.le_refl d)
  · obtain ⟨d, rfl⟩ := Nat.exists_eq_add_of_le hle
    have hup : ∀ i, i ≤ d → S (a + i) := fun i hi => by
      induction i with
      | zero => exact hanchor _ ha
      | succ i ih => exact hsucc (a + i) (ih (by omega)) (hpath (a + i + 1) (by omega))
    exact hup d (Nat.le_refl d)

theorem Joined.mirror (h : Joined anchor absorb k) (hk : k < n) (hanchor : ∀ a, anchor a = true → a < n)
    (ha : ∀ i, i < n → anchor' (n - 1 - i) = anchor i) (hb : ∀ i, i < n → absorb' (n - 1 - i) = absorb i) :
    Joined anchor' absorb' (n - 1 - k) := by
  obtain ⟨a, haa, hpath⟩ := h
  have han := hanchor a haa
  refine ⟨n - 1 - a, by rw [ha a han, haa], fun m hm => ?_⟩
  have hm' := hb (n - 1 - m) (by omega)
  rw [show n - 1 - (n - 1 - m) = m by omega] at hm'
  rw [hm']
  exact hpath _ (by omega)

end Joined

/-! ## Spreading marks -/

section Spread

variable {anchor absorb : Nat → Bool} {mark : List Bool} {i j k d : Nat}

/-- Marks the positions before `j` as long as they are not marked and absorb. -/
def spreadBack (absorb : Nat → Bool) : Nat → List Bool → List Bool
  | 0, mark => mark
  | j + 1, mark =>
    if mark.getD j false = false ∧ absorb j = true then spreadBack absorb j (mark.set j true) else mark

/-- Marks the `d` positions from `j` on as long as they are not marked and absorb. -/
def spreadForward (absorb : Nat → Bool) : Nat → Nat → List Bool → List Bool
  | 0, _, mark => mark
  | d + 1, j, mark =>
    if mark.getD j false = false ∧ absorb j = true then spreadForward absorb d (j + 1) (mark.set j true) else mark

def spreadAt (absorb : Nat → Bool) (mark : List Bool) (i : Nat) : List Bool :=
  if mark.getD i false = true then
    let mark := spreadBack absorb i mark
    spreadForward absorb (mark.length - (i + 1)) (i + 1) mark
  else mark

def spread (absorb : Nat → Bool) (mark : List Bool) : List Bool :=
  (List.range mark.length).foldl (spreadAt absorb) mark

theorem getD_set_true : (mark.set j true).getD k false = true ↔ mark.getD k false = true ∨ k = j ∧ j < mark.length := by
  rw [getD_eq_getElem?_getD, getD_eq_getElem?_getD, getElem?_set]
  by_cases hjk : j = k
  · subst hjk
    by_cases hlt : j < mark.length
    · simp [hlt]
    · simp [hlt]
  · simp [hjk, Ne.symm hjk]

structure ClosedAt (absorb : Nat → Bool) (mark : List Bool) (k : Nat) : Prop where
  pred : ∀ j, k = j + 1 → absorb j = true → mark.getD j false = true
  succ : absorb (k + 1) = true → mark.getD (k + 1) false = true

structure Spreads (anchor absorb : Nat → Bool) (mark mark' : List Bool) : Prop where
  length : mark'.length = mark.length
  mono : ∀ k, mark.getD k false = true → mark'.getD k false = true
  sound : (∀ k, mark.getD k false = true → Joined anchor absorb k) →
    ∀ k, mark'.getD k false = true → Joined anchor absorb k

theorem Spreads.refl (anchor absorb : Nat → Bool) (mark : List Bool) : Spreads anchor absorb mark mark :=
  ⟨rfl, fun _ h => h, fun h => h⟩

theorem Spreads.trans {mark' mark'' : List Bool} (h : Spreads anchor absorb mark mark')
    (h' : Spreads anchor absorb mark' mark'') : Spreads anchor absorb mark mark'' :=
  ⟨h'.length.trans h.length, fun k hk => h'.mono k (h.mono k hk), fun hs => h'.sound (h.sound hs)⟩

theorem ClosedAt.mono {mark' : List Bool} (h : ClosedAt absorb mark k)
    (hmono : ∀ k, mark.getD k false = true → mark'.getD k false = true) : ClosedAt absorb mark' k :=
  ⟨fun j hj ha => hmono _ (h.pred j hj ha), fun ha => hmono _ (h.succ ha)⟩

theorem spreads_set (h : Joined anchor absorb j ∨ ¬ ∀ k, mark.getD k false = true → Joined anchor absorb k) :
    Spreads anchor absorb mark (mark.set j true) where
  length := length_set
  mono k hk := getD_set_true.mpr (.inl hk)
  sound hs k hk := by
    rcases getD_set_true.mp hk with hk | ⟨rfl, -⟩
    · exact hs k hk
    · exact h.resolve_right fun hn => hn hs

theorem spreadBack_spec (anchor : Nat → Bool) (habs : ∀ j, absorb j = true → j < mark.length)
    (hj : mark.getD j false = true) :
    Spreads anchor absorb mark (spreadBack absorb j mark) ∧ (∀ k, (spreadBack absorb j mark).getD k false = true →
        mark.getD k false = true ∨ k < j ∧ ClosedAt absorb (spreadBack absorb j mark) k) ∧
      ∀ i, j = i + 1 → absorb i = true → (spreadBack absorb j mark).getD i false = true := by
  induction j generalizing mark with
  | zero => exact ⟨.refl anchor absorb mark, fun k hk => .inl hk, fun i hi => by omega⟩
  | succ j ih =>
    unfold spreadBack
    split
    · next hc =>
      have hlt := habs j hc.2
      have hset : (mark.set j true).getD j false = true := getD_set_true.mpr (.inr ⟨rfl, hlt⟩)
      obtain ⟨hsp, hclosed, hpred⟩ := @ih (mark.set j true) (by simpa using habs) hset
      have hone : Spreads anchor absorb mark (mark.set j true) := by
        refine spreads_set ?_
        by_cases hs : ∀ k, mark.getD k false = true → Joined anchor absorb k
        · exact .inl ((hs _ hj).pred hc.2)
        · exact .inr hs
      have hmarked : (spreadBack absorb j (mark.set j true)).getD j false = true := hsp.mono j hset
      refine ⟨hone.trans hsp, fun k hk => ?_, fun i hi _ => ?_⟩
      · rcases hclosed k hk with hk' | ⟨hlt, hcl⟩
        · rcases getD_set_true.mp hk' with hk' | ⟨rfl, -⟩
          · exact .inl hk'
          · exact .inr ⟨Nat.lt_succ_self k, hpred, fun _ => hsp.mono _ (hone.mono _ hj)⟩
        · exact .inr ⟨by omega, hcl⟩
      · obtain rfl : j = i := by omega
        exact hmarked
    · next hc =>
      refine ⟨.refl anchor absorb mark, fun k hk => .inl hk, fun i hi ha => ?_⟩
      obtain rfl : j = i := by omega
      by_contra hn
      exact hc ⟨by simpa using hn, ha⟩

theorem spreadForward_spec (anchor : Nat → Bool) (habs : ∀ j, absorb j = true → j < mark.length)
    (hi : mark.getD i false = true) (hd : i + 1 + d = mark.length) :
    Spreads anchor absorb mark (spreadForward absorb d (i + 1) mark) ∧
      (∀ k, k ≤ i → (spreadForward absorb d (i + 1) mark).getD k false = true → mark.getD k false = true) ∧
      (absorb (i + 1) = true → (spreadForward absorb d (i + 1) mark).getD (i + 1) false = true) := by
  induction d generalizing mark i with
  | zero => exact ⟨.refl anchor absorb mark, fun k _ hk => hk, fun ha => absurd (habs _ ha) (by omega)⟩
  | succ d ih =>
    unfold spreadForward
    split
    · next hc =>
      have hset : (mark.set (i + 1) true).getD (i + 1) false = true := getD_set_true.mpr (.inr ⟨rfl, by omega⟩)
      obtain ⟨hsp, hkeep, -⟩ := @ih (mark.set (i + 1) true) (i + 1) (by simpa using habs) hset
        (by rw [length_set]; omega)
      have hone : Spreads anchor absorb mark (mark.set (i + 1) true) := by
        refine spreads_set ?_
        by_cases hs : ∀ k, mark.getD k false = true → Joined anchor absorb k
        · exact .inl ((hs _ hi).succ hc.2)
        · exact .inr hs
      refine ⟨hone.trans hsp, fun k hk hk' => ?_, fun _ => hsp.mono _ hset⟩
      rcases getD_set_true.mp (hkeep k (by omega) hk') with h | ⟨rfl, -⟩
      · exact h
      · omega
    · next hc =>
      refine ⟨.refl anchor absorb mark, fun k _ hk => hk, fun ha => ?_⟩
      by_contra hn
      exact hc ⟨by simpa using hn, ha⟩

theorem spreadAt_spec (anchor : Nat → Bool) (habs : ∀ j, absorb j = true → j < mark.length) (hlt : i < mark.length)
    (hclosed : ∀ k, k < i → mark.getD k false = true → ClosedAt absorb mark k) :
    Spreads anchor absorb mark (spreadAt absorb mark i) ∧
      ∀ k, k < i + 1 → (spreadAt absorb mark i).getD k false = true → ClosedAt absorb (spreadAt absorb mark i) k := by
  unfold spreadAt
  split
  · next hi =>
    obtain ⟨hback, hnew, hpred⟩ := spreadBack_spec anchor habs hi
    simp only
    obtain ⟨hforward, hkeep, hsucc⟩ := @spreadForward_spec absorb (spreadBack absorb i mark) i
      ((spreadBack absorb i mark).length - (i + 1)) anchor (by rw [hback.length]; exact habs) (hback.mono i hi)
      (by rw [hback.length]; omega)
    refine ⟨hback.trans hforward, fun k hk hmarked => ?_⟩
    rcases Nat.eq_or_lt_of_le (Nat.le_of_lt_succ hk) with rfl | hk
    · exact ⟨fun j hj ha => hforward.mono j (hpred j hj ha), hsucc⟩
    · rcases hnew k (hkeep k (by omega) hmarked) with h | ⟨-, h⟩
      · exact (hclosed k hk h).mono fun k hk => hforward.mono k (hback.mono k hk)
      · exact h.mono hforward.mono
  · next hi =>
    refine ⟨.refl anchor absorb mark, fun k hk hmarked => ?_⟩
    rcases Nat.eq_or_lt_of_le (Nat.le_of_lt_succ hk) with rfl | hk
    · exact absurd hmarked hi
    · exact hclosed k hk hmarked

theorem spread_spec (hanchor : ∀ k, mark.getD k false = true ↔ anchor k = true)
    (habs : ∀ j, absorb j = true → j < mark.length) :
    (spread absorb mark).length = mark.length ∧
      ∀ k, (spread absorb mark).getD k false = true ↔ Joined anchor absorb k := by
  have hloop : ∀ n, n ≤ mark.length → Spreads anchor absorb mark ((List.range n).foldl (spreadAt absorb) mark) ∧
        ∀ k, k < n → ((List.range n).foldl (spreadAt absorb) mark).getD k false = true →
          ClosedAt absorb ((List.range n).foldl (spreadAt absorb) mark) k := fun n hn => by
    induction n with
    | zero => exact ⟨.refl anchor absorb mark, fun k hk => absurd hk (Nat.not_lt_zero k)⟩
    | succ n ih =>
      obtain ⟨hsp, hclosed⟩ := ih (by omega)
      rw [range_succ, foldl_append, foldl_cons, foldl_nil]
      obtain ⟨hsp', hclosed'⟩ := spreadAt_spec (i := n) anchor (by rw [hsp.length]; exact habs)
        (by rw [hsp.length]; omega) hclosed
      exact ⟨hsp.trans hsp', hclosed'⟩
  obtain ⟨hsp, hclosed⟩ := hloop mark.length (Nat.le_refl _)
  have hrange : ∀ k, (spread absorb mark).getD k false = true → k < mark.length := fun k hk => by
    by_contra hge
    rw [getD_eq_getElem?_getD, getElem?_eq_none (by rw [spread, hsp.length]; omega)] at hk
    cases hk
  refine ⟨hsp.length, fun k => ⟨hsp.sound (fun j hj => .of_anchor ((hanchor j).mp hj)) k, fun h => ?_⟩⟩
  refine h.mem (fun a ha => hsp.mono a ((hanchor a).mpr ha)) (fun j hj ha => ?_) fun j hj ha => ?_
  · exact (hclosed (j + 1) (hrange _ hj) hj).pred j rfl ha
  · exact (hclosed j (hrange j hj) hj).succ ha

end Spread

variable (inRun : Bool)

/-! ## Replacing runs -/

section Runs

variable {α : Type u} (r : α)

/-- Each maximal run of marked elements becomes one `r`; `inRun` says that a run is under way. -/
def replaceRuns (inRun : Bool) : List (α × Bool) → List α
  | [] => []
  | (a, false) :: l => a :: replaceRuns false l
  | (_, true) :: l => if inRun then replaceRuns true l else r :: replaceRuns true l

@[simp] theorem replaceRuns_nil : replaceRuns r inRun [] = [] := by
  cases inRun <;> rfl

@[simp] theorem replaceRuns_false (a : α) (l : List (α × Bool)) :
    replaceRuns r inRun ((a, false) :: l) = a :: replaceRuns r false l := rfl

@[simp] theorem replaceRuns_true (a : α) (l : List (α × Bool)) :
    replaceRuns r true ((a, true) :: l) = replaceRuns r true l := rfl

@[simp] theorem replaceRuns_start (a : α) (l : List (α × Bool)) :
    replaceRuns r false ((a, true) :: l) = r :: replaceRuns r true l := rfl

theorem replaceRuns_dropWhile (l : List (α × Bool)) :
    replaceRuns r true l = replaceRuns r false (l.dropWhile Prod.snd) := by
  induction l with
  | nil => rfl
  | cons e l ih =>
    obtain ⟨a, b⟩ := e
    cases b with
    | false => rfl
    | true => exact ih

/-- Whether a run is under way behind `l`. -/
def endsInRun (l : List (α × Bool)) : Bool := (l.getLast?.map Prod.snd).getD inRun

theorem replaceRuns_append (l l' : List (α × Bool)) :
    replaceRuns r inRun (l ++ l') = replaceRuns r inRun l ++ replaceRuns r (endsInRun inRun l) l' := by
  induction l generalizing inRun with
  | nil => simp [endsInRun]
  | cons e l ih =>
    have hends : ∀ b, endsInRun e.2 l = endsInRun b (e :: l) := fun b => by
      unfold endsInRun
      cases l with
      | nil => rfl
      | cons e' l => simp [getLast?_cons]
    obtain ⟨a, b⟩ := e
    cases b with
    | false =>
      rw [cons_append, replaceRuns_false, ih, ← hends inRun]
      rfl
    | true =>
      cases inRun with
      | false =>
        rw [cons_append, replaceRuns_start, ih, ← hends false]
        rfl
      | true =>
        rw [cons_append, replaceRuns_true, ih, ← hends true]
        rfl

theorem replaceRuns_reverse (l : List (α × Bool)) :
    replaceRuns r false l.reverse = (replaceRuns r false l).reverse := by
  induction l with
  | nil => rfl
  | cons e l ih =>
    have hlast : endsInRun false l.reverse = (l.head?.map Prod.snd).getD false := by
      simp [endsInRun, getLast?_reverse]
    rw [reverse_cons, replaceRuns_append, ih, hlast]
    obtain ⟨a, b⟩ := e
    cases b with
    | false => simp
    | true =>
      rcases l with - | ⟨⟨a', b'⟩, l⟩
      · simp
      · cases b' <;> simp

variable {l : List (α × Bool)}

theorem replaceRuns_of_all (h : ∀ e ∈ l, e.2 = true) : replaceRuns r true l = [] := by
  induction l with
  | nil => rfl
  | cons e l ih =>
    obtain ⟨a, b⟩ := e
    obtain rfl : b = true := h _ mem_cons_self
    exact ih fun e he => h e (mem_cons_of_mem _ he)

theorem mem_replaceRuns {inRun : Bool} {a : α} (h : (a, false) ∈ l) : a ∈ replaceRuns r inRun l := by
  induction l generalizing inRun with
  | nil => cases h
  | cons e l ih =>
    obtain ⟨a', b⟩ := e
    rcases mem_cons.mp h with he | hl
    · cases he
      exact mem_cons_self
    · cases b with
      | false => exact mem_cons_of_mem _ (ih hl)
      | true =>
        cases inRun with
        | false => exact mem_cons_of_mem _ (ih hl)
        | true => exact ih hl

theorem replaceRuns_ne_nil (h : l ≠ []) : replaceRuns r false l ≠ [] := by
  rcases l with - | ⟨⟨a, b⟩, l⟩
  · exact absurd rfl h
  · cases b <;> nofun

theorem two_le_length_replaceRuns (hmarked : ∃ e ∈ l, e.2 = true) (hkept : ∃ e ∈ l, e.2 = false) :
    2 ≤ (replaceRuns r false l).length := by
  rcases l with - | ⟨⟨a, b⟩, l⟩
  · obtain ⟨e, he, -⟩ := hkept
    cases he
  · cases b with
    | false =>
      obtain ⟨e, he, hb⟩ := hmarked
      rcases mem_cons.mp he with rfl | he
      · cases hb
      · exact Nat.succ_le_succ (length_pos_iff.mpr (replaceRuns_ne_nil r (ne_nil_of_mem he)))
    | true =>
      obtain ⟨⟨a', b'⟩, he, rfl⟩ := hkept
      rcases mem_cons.mp he with he | he
      · cases he
      · exact Nat.succ_le_succ (length_pos_of_mem (mem_replaceRuns r he))

end Runs

end PerfAgent
