import Mathlib.Data.List.AList
import Mathlib.Algebra.BigOperators.Group.List.Basic

/-!
# Finite maps with a sum over their values

A finite map is Mathlib's `AList` at a constant value type.  This file adds the
two measures a bounded store is accounted by: the number of entries, and the sum
of a weight over the stored values, in any commutative monoid.  One weight into
`ℕ` counts what the entries hold; one into a `Multiset` says *which* things they
hold, and the same three equations (insert, erase, absent key) serve both.
-/

universe u v w

namespace PerfAgent

open List

abbrev AssocMap (K : Type u) (V : Type v) := AList (fun _ : K => V)

namespace AssocMap

variable {K : Type u} {V : Type v} {M : Type w}

def size (m : AssocMap K V) : Nat := m.entries.length

def values (m : AssocMap K V) : List V := m.entries.map Sigma.snd

def sum [AddCommMonoid M] (f : V → M) (m : AssocMap K V) : M := (m.values.map f).sum

def sumEntries [AddCommMonoid M] (f : K → V → M) (m : AssocMap K V) : M :=
  (m.entries.map fun e => f e.1 e.2).sum

@[simp] theorem size_empty : size (∅ : AssocMap K V) = 0 := rfl

@[simp] theorem sum_empty [AddCommMonoid M] (f : V → M) : sum f (∅ : AssocMap K V) = 0 := rfl

variable [DecidableEq K]

instance decidableEq [DecidableEq V] : DecidableEq (AssocMap K V) := fun m m' =>
  decidable_of_iff (m.entries = m'.entries) AList.ext_iff.symm

def find? (m : AssocMap K V) (k : K) : Option V := AList.lookup k m

def put (m : AssocMap K V) (k : K) (v : V) : AssocMap K V := AList.insert k v m

def del (m : AssocMap K V) (k : K) : AssocMap K V := AList.erase k m

@[simp] theorem find?_empty (k : K) : find? (∅ : AssocMap K V) k = none := rfl

@[simp] theorem find?_put_self (m : AssocMap K V) (k : K) (v : V) :
    (m.put k v).find? k = some v := AList.lookup_insert m

theorem find?_put_of_ne (m : AssocMap K V) {k k' : K} (v : V) (h : k' ≠ k) :
    (m.put k v).find? k' = m.find? k' := AList.lookup_insert_ne h

theorem find?_put (m : AssocMap K V) (k k' : K) (v : V) :
    (m.put k v).find? k' = if k' = k then some v else m.find? k' := by
  split
  · next h => rw [h, find?_put_self]
  · next h => exact find?_put_of_ne m v h

theorem find?_foldl_put {K' : Type*} {V' : Type*} [DecidableEq K'] {entries : List (Sigma fun _ : K => V)}
    (hnodup : entries.NodupKeys) {f : K → K'} (hf : Function.Injective f) (g : V → V') (m : AssocMap K' V') (k : K) :
    find? (entries.foldl (fun m e => m.put (f e.1) (g e.2)) m) (f k) =
      ((entries.dlookup k).map g).or (m.find? (f k)) := by
  induction entries generalizing m with
  | nil => rfl
  | cons e entries ih =>
    obtain ⟨hnew, hrest⟩ := nodupKeys_cons.mp hnodup
    rw [foldl_cons, ih hrest, find?_put]
    by_cases hk : k = e.1
    · subst hk
      rw [if_pos rfl, dlookup_eq_none.mpr hnew, dlookup_cons_eq]
      rfl
    · rw [if_neg (fun h => hk (hf h)), dlookup_cons_ne _ _ hk]

@[simp] theorem find?_del_self (m : AssocMap K V) (k : K) : (m.del k).find? k = none :=
  AList.lookup_erase k m

theorem find?_del_of_ne (m : AssocMap K V) {k k' : K} (h : k' ≠ k) :
    (m.del k).find? k' = m.find? k' := AList.lookup_erase_ne h

theorem find?_del (m : AssocMap K V) (k k' : K) : (m.del k).find? k' = if k' = k then none else m.find? k' := by
  split
  · next h => rw [h, find?_del_self]
  · next h => exact find?_del_of_ne m h

variable {m : AssocMap K V}

theorem find?_del_eq_some {k k' : K} {v : V} : (m.del k).find? k' = some v ↔ k' ≠ k ∧ m.find? k' = some v := by
  rw [find?_del]
  split <;> simp_all

def keep (p : K → V → Bool) (m : AssocMap K V) : AssocMap K V where
  entries := m.entries.filter fun e => p e.1 e.2
  nodupKeys := m.nodupKeys.sublist filter_sublist

theorem find?_keep (p : K → V → Bool) (m : AssocMap K V) (k : K) : (m.keep p).find? k = (m.find? k).filter (p k) := by
  refine Option.ext fun v => ?_
  have hmem : ∀ m : AssocMap K V, m.find? k = some v ↔ ⟨k, v⟩ ∈ m.entries := fun m => AList.mem_lookup_iff
  rw [Option.filter_eq_some_iff, hmem, hmem]
  exact mem_filter

theorem mem_values_iff {v : V} : v ∈ m.values ↔ ∃ k, m.find? k = some v := by
  constructor
  · intro h
    obtain ⟨⟨k, w⟩, he, rfl⟩ := mem_map.mp h
    exact ⟨k, AList.mem_lookup_iff.mpr he⟩
  · rintro ⟨k, h⟩
    exact mem_map.mpr ⟨⟨k, v⟩, AList.mem_lookup_iff.mp h, rfl⟩

theorem entries_perm_of_find? {k : K} {v : V} (h : m.find? k = some v) :
    m.entries.Perm (⟨k, v⟩ :: (m.del k).entries) := by
  have hk : k ∈ m.entries.keys := dlookup_isSome.mp (by
    change (m.find? k).isSome
    rw [h]; rfl)
  obtain ⟨w, l₁, l₂, -, hl, he⟩ := exists_of_kerase hk
  have hw : w = v := by
    have hm : (⟨k, w⟩ : Sigma fun _ : K => V) ∈ m.entries := by rw [hl]; simp
    have hw' : m.find? k = some w := AList.mem_lookup_iff.mpr hm
    rw [h] at hw'
    exact (Option.some.inj hw').symm
  subst hw
  change m.entries.Perm (⟨k, w⟩ :: m.entries.kerase k)
  rw [he]
  nth_rewrite 1 [hl]
  exact perm_middle

theorem del_of_find?_eq_none {k : K} (h : m.find? k = none) : m.del k = m :=
  AList.ext (kerase_of_notMem_keys (dlookup_eq_none.mp h))

theorem del_put_of_find?_eq_none {k : K} {v : V} (h : m.find? k = none) : (m.put k v).del k = m := by
  have hcons : List.kerase k (⟨k, v⟩ :: m.entries.kerase k) = m.entries.kerase k :=
    kerase_cons_eq (s := (⟨k, v⟩ : Sigma fun _ : K => V)) rfl
  exact AList.ext (hcons.trans (kerase_of_notMem_keys (dlookup_eq_none.mp h)))

theorem size_of_find? {k : K} {v : V} (h : m.find? k = some v) : m.size = (m.del k).size + 1 := by
  simpa [size] using (entries_perm_of_find? h).length_eq

theorem size_put (m : AssocMap K V) (k : K) (v : V) : (m.put k v).size = (m.del k).size + 1 := rfl

theorem size_put_of_find? {k : K} {v w : V} (h : m.find? k = some w) : (m.put k v).size = m.size := by
  rw [size_put, size_of_find? h]

theorem size_put_of_find?_eq_none {k : K} {v : V} (h : m.find? k = none) : (m.put k v).size = m.size + 1 := by
  rw [size_put, del_of_find?_eq_none h]

theorem size_pos_of_find? {k : K} {v : V} (h : m.find? k = some v) : 0 < m.size := by
  rw [size_of_find? h]
  exact Nat.succ_pos _

theorem exists_find?_of_size_pos (h : 0 < m.size) : ∃ k v, m.find? k = some v := by
  obtain ⟨⟨k, v⟩, he⟩ := exists_mem_of_length_pos h
  exact ⟨k, v, AList.mem_lookup_iff.mpr he⟩

section Sum

variable [AddCommMonoid M] (f : V → M)

theorem sum_of_find? {k : K} {v : V} (h : m.find? k = some v) : m.sum f = f v + (m.del k).sum f := by
  have hp := ((entries_perm_of_find? h).map Sigma.snd).map f
  simpa [sum, values] using hp.sum_eq

theorem sum_put (m : AssocMap K V) (k : K) (v : V) : (m.put k v).sum f = f v + (m.del k).sum f := by
  simp only [sum, values, put, AList.entries_insert, map_cons, sum_cons]
  rfl

theorem sum_put_of_find?_eq_none {k : K} {v : V} (h : m.find? k = none) : (m.put k v).sum f = f v + m.sum f := by
  rw [sum_put, del_of_find?_eq_none h]

theorem sum_eq_of_find? {m' : AssocMap K V} (h : ∀ k, (m.find? k).map f = (m'.find? k).map f) : m.sum f = m'.sum f := by
  have hkeyed : ∀ m : AssocMap K V, m.sum f = (m.keys.map fun k => ((m.find? k).map f).getD 0).sum := fun m => by
    unfold sum values
    rw [map_map]
    change _ = ((m.entries.map Sigma.fst).map _).sum
    rw [map_map]
    refine congrArg List.sum (map_congr_left fun e he => ?_)
    have hfind : m.find? e.1 = some e.2 := AList.mem_lookup_iff.mpr he
    simp [hfind]
  have hkeys : m.keys.Perm m'.keys := by
    refine (perm_ext_iff_of_nodup m.keys_nodup m'.keys_nodup).mpr fun k => ?_
    have hmem : ∀ m : AssocMap K V, k ∈ m.keys ↔ ((m.find? k).map f).isSome = true := fun m => by
      rw [Option.isSome_map]
      exact AList.lookup_isSome.symm
    rw [hmem, hmem, h]
  rw [hkeyed, hkeyed]
  simp only [h]
  exact (hkeys.map _).sum_eq

end Sum

section SumEntries

variable [AddCommMonoid M] (f : K → V → M)

theorem sumEntries_of_find? {k : K} {v : V} (h : m.find? k = some v) :
    m.sumEntries f = f k v + (m.del k).sumEntries f := by
  have hp := (entries_perm_of_find? h).map fun e => f e.1 e.2
  simpa [sumEntries] using hp.sum_eq

theorem sumEntries_put (m : AssocMap K V) (k : K) (v : V) :
    (m.put k v).sumEntries f = f k v + (m.del k).sumEntries f := by
  simp only [sumEntries, put, AList.entries_insert, map_cons, sum_cons]
  rfl

theorem exists_find?_of_sumEntries_ne_zero (h : m.sumEntries f ≠ 0) : ∃ k v, m.find? k = some v ∧ f k v ≠ 0 := by
  by_contra hno
  push Not at hno
  refine h (sum_eq_zero fun x hx => ?_)
  obtain ⟨⟨k, v⟩, he, rfl⟩ := mem_map.mp hx
  exact hno k v (AList.mem_lookup_iff.mpr he)

end SumEntries

end AssocMap

end PerfAgent
