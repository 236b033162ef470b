import Mathlib.Data.List.TakeWhile

/-!
# Walking a list, and changing one place of it

Facts about `takeWhile` and `dropWhile` read as a walk that skips a prefix: how
many elements it passes, what is left, and which elements it cannot pass.  Then the
place that `modify` changes, as a split of the list, and what `set` leaves.
-/

universe u

namespace PerfAgent

open List

variable {α : Type u}

theorem drop_length_takeWhile (p : α → Bool) (l : List α) : l.drop (l.takeWhile p).length = l.dropWhile p := by
  induction l with
  | nil => rfl
  | cons a l ih =>
    by_cases h : p a
    · simp [h, ih]
    · simp [h]

variable {l : List α}

theorem mem_dropWhile_of_not {p : α → Bool} {a : α} (ha : a ∈ l) (hp : p a = false) : a ∈ l.dropWhile p := by
  rw [← takeWhile_append_dropWhile (p := p) (l := l), mem_append] at ha
  rcases ha with ha | ha
  · rw [mem_takeWhile_imp ha] at hp
    cases hp
  · exact ha

theorem not_of_dropWhile_eq_cons {p : α → Bool} {l' : List α} {a : α} (h : l.dropWhile p = a :: l') : p a = false := by
  have hn : l.dropWhile p ≠ [] := by rw [h]; simp
  have := head_dropWhile_not p hn
  simpa [h] using this

theorem modify_split {i : Nat} {a : α} (h : l[i]? = some a) :
    ∃ l₁ l₂, l = l₁ ++ a :: l₂ ∧ ∀ f, l.modify i f = l₁ ++ f a :: l₂ := by
  obtain ⟨hi, rfl⟩ := List.getElem?_eq_some_iff.mp h
  refine ⟨l.take i, l.drop (i + 1), ?_, fun f => ?_⟩
  · rw [← drop_eq_getElem_cons hi, take_append_drop]
  · rw [modify_eq_take_cons_drop hi]

theorem set_split {i : Nat} {a : α} (h : l[i]? = some a) :
    ∃ l₁ l₂, l = l₁ ++ a :: l₂ ∧ (∀ b, l.set i b = l₁ ++ b :: l₂) ∧ l.eraseIdx i = l₁ ++ l₂ := by
  obtain ⟨hi, rfl⟩ := List.getElem?_eq_some_iff.mp h
  refine ⟨l.take i, l.drop (i + 1), ?_, fun b => ?_, eraseIdx_eq_take_drop_succ l i⟩
  · rw [← drop_eq_getElem_cons hi, take_append_drop]
  · rw [set_eq_take_append_cons_drop, if_pos hi]

theorem eq_or_mem_set {i : Nat} {a b : α} (h : l[i]? = some a) (hb : b ∈ l) (c : α) : b = a ∨ b ∈ l.set i c := by
  obtain ⟨j, hj⟩ := mem_iff_getElem?.mp hb
  by_cases hij : i = j
  · subst hij
    exact .inl (Option.some.inj (hj.symm.trans h))
  · right
    refine mem_iff_getElem?.mpr ⟨j, ?_⟩
    rw [getElem?_set_ne hij, hj]

theorem countP_set_add {i : Nat} {a : α} (h : l[i]? = some a) (p : α → Bool) (b : α) :
    (l.set i b).countP p + (p a).toNat = l.countP p + (p b).toNat := by
  obtain ⟨hi, rfl⟩ := List.getElem?_eq_some_iff.mp h
  have hset : l.set i b = l.take i ++ b :: l.drop (i + 1) := by
    rw [set_eq_take_append_cons_drop, if_pos hi]
  have hl : l.countP p = (l.take i ++ l[i] :: l.drop (i + 1)).countP p := by
    rw [← drop_eq_getElem_cons hi, take_append_drop]
  rw [hset, hl, countP_append, countP_append, countP_cons, countP_cons]
  cases p l[i] <;> cases p b <;> simp <;> omega

end PerfAgent
