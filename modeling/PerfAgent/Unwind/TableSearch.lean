import PerfAgent.Lib.BoundedSearch
import PerfAgent.Unwind.Reference
import PerfAgent.Unwind.Tables

/-!
# Every row of an installed table is found

`PopulateCFI` refuses a table that the search of the walker could not reach.  It allows `2 ^ 24`
rows to a search of 24 probes, and that is one row too many: the first row of a table of just
that size takes a 25th probe.  The other rows that are not found are those whose end is not a
64-bit number.
-/

namespace PerfAgent.Unwind

open List

/-- The rows are in order and their ranges do not overlap: each ends before the next begins. -/
def InOrder (entries : List CFIEntry) : Prop := entries.Pairwise fun a b => a.pcEnd ≤ b.pcStart.toNat

def rowAt (entries : List CFIEntry) (relPc : UInt64) : Option CFIEntry :=
  entries.find? fun e => decide (e.Covers relPc.toNat)

def CFIEntry.EndFits (e : CFIEntry) : Prop := e.pcEndDelta = 0 ∨ e.pcEnd < 2 ^ 64

instance (e : CFIEntry) : Decidable e.EndFits := inferInstanceAs (Decidable (_ ∨ _))

def compareRow (relPc : UInt64) (e : CFIEntry) : Ordering :=
  if relPc < e.pcStart then .lt else if relPc ≥ e.pcStart + e.pcEndDelta.toUInt64 then .gt else .eq

def compareAt (inner : List CFIEntry) (relPc : UInt64) (m : Nat) : Ordering :=
  (inner[m]?).elim .lt (compareRow relPc)

theorem cfiSearch_eq {inner : List CFIEntry} {relPc : UInt64} {k lo hi : Nat} (h : hi ≤ inner.length) :
    cfiSearch inner relPc k lo hi = (boundedSearch (compareAt inner relPc) k lo hi).bind (inner[·]?) := by
  induction k generalizing lo hi with
  | zero => rfl
  | succ k ih =>
    rw [cfiSearch, boundedSearch]
    split
    · rfl
    · have hmid : lo + (hi - lo) / 2 < inner.length := by omega
      have hget := getElem?_eq_getElem hmid
      dsimp only
      rw [compareAt, hget]
      dsimp only [Option.elim]
      unfold compareRow
      split
      · exact ih (by omega)
      · split
        · exact ih h
        · exact hget.symm

theorem toNat_probedEnd (e : CFIEntry) : (e.pcStart + e.pcEndDelta.toUInt64).toNat = e.pcEnd % 2 ^ 64 := by
  rw [UInt64.toNat_add, UInt32.toNat_toUInt64]
  rfl

theorem compareRow_eq_iff {relPc : UInt64} {e : CFIEntry} :
    compareRow relPc e = .eq ↔ e.Covers relPc.toNat ∧ e.EndFits := by
  have hend := toNat_probedEnd e
  have hstart := e.pcStart.toNat_lt
  have hdelta := e.pcEndDelta.toNat_lt
  have hzero : e.pcEndDelta = 0 ↔ e.pcEndDelta.toNat = 0 := UInt32.toNat_inj.symm
  have hdef : e.pcEnd = e.pcStart.toNat + e.pcEndDelta.toNat := rfl
  unfold compareRow CFIEntry.Covers CFIEntry.EndFits
  rw [hzero]
  split
  · next hlt => exact ⟨nofun, fun h => absurd h.1.1 (Nat.not_le.mpr hlt)⟩
  · next hge =>
    have hge' : e.pcStart.toNat ≤ relPc.toNat := Nat.not_lt.mp hge
    split
    · next hpast =>
      have hpast' : e.pcEnd % 2 ^ 64 ≤ relPc.toNat := hend ▸ hpast
      exact ⟨nofun, fun h => by omega⟩
    · next hin =>
      have hin' : relPc.toNat < e.pcEnd % 2 ^ 64 := hend ▸ Nat.not_le.mp hin
      exact ⟨fun _ => by omega, fun _ => rfl⟩

theorem compareRow_of_lt {relPc : UInt64} {e : CFIEntry} (h : relPc.toNat < e.pcStart.toNat) :
    compareRow relPc e = .lt := if_pos h

theorem compareRow_of_ge {relPc : UInt64} {e : CFIEntry} (h : e.pcEnd ≤ relPc.toNat) : compareRow relPc e = .gt := by
  have hend := toNat_probedEnd e
  have hlt := relPc.toNat_lt
  have hdef : e.pcEnd = e.pcStart.toNat + e.pcEndDelta.toNat := rfl
  have hstart : ¬relPc < e.pcStart := fun hlt => by
    have hlt' : relPc.toNat < e.pcStart.toNat := hlt
    omega
  have hpast : relPc ≥ e.pcStart + e.pcEndDelta.toUInt64 := by
    show (e.pcStart + e.pcEndDelta.toUInt64).toNat ≤ relPc.toNat
    rw [hend, Nat.mod_eq_of_lt (by omega)]
    exact h
  rw [compareRow, if_neg hstart, if_pos hpast]

section Search

variable {entries : List CFIEntry} {relPc : UInt64} {e : CFIEntry}

theorem rowAt_of_covers (h : InOrder entries) (he : e ∈ entries) (hcov : e.Covers relPc.toNat) :
    rowAt entries relPc = some e := by
  induction entries with
  | nil => cases he
  | cons a es ih =>
    obtain ⟨ha, hes⟩ := pairwise_cons.mp h
    obtain rfl | he := mem_cons.mp he
    · exact find?_cons_of_pos (decide_eq_true hcov)
    · have hnot : ¬a.Covers relPc.toNat := fun hcov' => by
        have := ha e he
        have := hcov.1
        have := hcov'.2
        omega
      rw [rowAt, find?_cons_of_neg (by simpa using hnot)]
      exact ih hes he

theorem covers_of_rowAt (h : rowAt entries relPc = some e) : e ∈ entries ∧ e.Covers relPc.toNat := by
  have hcov := find?_some h
  exact ⟨mem_of_find?_eq_some h, of_decide_eq_true hcov⟩

theorem sought_of_covers (h : InOrder entries) {j : Nat} (hj : entries[j]? = some e)
    (hcov : e.Covers relPc.toNat) (hfits : e.EndFits) :
    Sought (compareAt entries relPc) j 0 entries.length where
  lo_le := Nat.zero_le j
  lt_hi := (List.getElem?_eq_some_iff.mp hj).1
  here := by
    rw [compareAt, hj]
    exact compareRow_eq_iff.mpr ⟨hcov, hfits⟩
  before m hm hlt := by
    obtain ⟨hj', rfl⟩ := List.getElem?_eq_some_iff.mp hj
    rw [compareAt, getElem?_eq_getElem hlt]
    have := pairwise_iff_getElem.mp h j m hj' hlt hm
    exact compareRow_of_lt (lt_of_lt_of_le hcov.2 this)
  after m _ hm := by
    obtain ⟨hj', rfl⟩ := List.getElem?_eq_some_iff.mp hj
    have hlt : m < entries.length := lt_trans hm hj'
    rw [compareAt, getElem?_eq_getElem hlt]
    have := pairwise_iff_getElem.mp h m j hlt hj' hm
    exact compareRow_of_ge (le_trans this hcov.1)

theorem cfiSearch_sound {k : Nat} (h : cfiSearch entries relPc k 0 entries.length = some e) :
    e ∈ entries ∧ e.Covers relPc.toNat ∧ e.EndFits := by
  rw [cfiSearch_eq (le_refl _)] at h
  obtain ⟨m, hm, hget⟩ := Option.bind_eq_some_iff.mp h
  have hcmp := (boundedSearch_sound hm).2.2
  rw [compareAt, hget] at hcmp
  exact ⟨mem_of_getElem? hget, compareRow_eq_iff.mp hcmp⟩

/-- The first row of a table of `2 ^ k` rows is not found with `k` probes, and every other row
is found. -/
theorem cfiSearch_of_covers (h : InOrder entries) {j k : Nat} (hlen : entries.length ≤ 2 ^ k)
    (hj : entries[j]? = some e) (hcov : e.Covers relPc.toNat) (hfits : e.EndFits) :
    cfiSearch entries relPc k 0 entries.length =
      if entries.length = 2 ^ k ∧ j = 0 then none else some e := by
  have hsought := sought_of_covers h hj hcov hfits
  rw [cfiSearch_eq (le_refl _)]
  obtain hlt | heq := Nat.lt_or_eq_of_le hlen
  · rw [boundedSearch_of_lt hsought hlt, if_neg fun h' => absurd h'.1 (Nat.ne_of_lt hlt)]
    exact hj
  · rw [boundedSearch_of_eq hsought heq]
    by_cases hj₀ : j = 0
    · rw [if_pos hj₀, if_pos ⟨heq, hj₀⟩]
      rfl
    · rw [if_neg hj₀, if_neg fun h' => hj₀ h'.2]
      exact hj

end Search

/-! ## Installed tables -/

theorem cfiLookup_populateCFI {m m' : Tables} {tableID : UInt64} {entries : List CFIEntry}
    (h : m.populateCFI tableID entries none = (m', none)) :
    entries.length ≤ 2 ^ binarySearchMaxIters ∧ ∀ relPc,
      m'.cfiLookup tableID relPc = cfiSearch entries relPc binarySearchMaxIters 0 entries.length := by
  unfold Tables.populateCFI at h
  split at h
  · cases h
  · next hpos =>
    split at h
    · cases h
    · next hle =>
      have hle' : entries.length ≤ 2 ^ binarySearchMaxIters := Nat.not_lt.mp hle
      cases h
      refine ⟨hle', ?_⟩
      intro relPc
      have hlen : (UInt32.ofNat entries.length).toNat = entries.length := by
        rw [UInt32.toNat_ofNat', Nat.mod_eq_of_lt (lt_of_le_of_lt hle' (by decide))]
      have hne : UInt32.ofNat entries.length ≠ 0 := fun heq => by
        rw [heq] at hlen
        exact hpos hlen.symm
      unfold Tables.cfiLookup
      dsimp only
      rw [AssocMap.find?_put_self, AssocMap.find?_put_self]
      dsimp only
      rw [if_neg hne, hlen]

theorem covers_pcStart {e : CFIEntry} (h : e.pcEndDelta ≠ 0) : e.Covers e.pcStart.toNat := by
  have hpos : 0 < e.pcEndDelta.toNat := Nat.pos_of_ne_zero fun h' => h (UInt32.toNat_inj.mp h')
  exact ⟨le_refl _, Nat.lt_add_of_pos_right hpos⟩

/-- The walker finds in an installed table exactly what is there, if and only if the table has
less than `MaxSearchableRows` rows, or an empty first one, and every row that is not empty has an
end. -/
theorem installed_searchable_iff {m m' : Tables} {tableID : UInt64} {entries : List CFIEntry}
    (hsorted : InOrder entries) (h : m.populateCFI tableID entries none = (m', none)) :
    (∀ relPc, m'.cfiLookup tableID relPc = rowAt entries relPc) ↔
      (entries.length < maxSearchableRows ∨ ∀ e ∈ entries.head?, e.pcEndDelta = 0) ∧ ∀ e ∈ entries, e.EndFits := by
  obtain ⟨hlen, hlookup⟩ := cfiLookup_populateCFI h
  constructor
  · intro hall
    have hends : ∀ e ∈ entries, e.EndFits := by
      intro e he
      by_cases hempty : e.pcEndDelta = 0
      · exact .inl hempty
      · have hrow := rowAt_of_covers hsorted he (covers_pcStart hempty)
        rw [← hall, hlookup] at hrow
        exact (cfiSearch_sound hrow).2.2
    refine ⟨?_, hends⟩
    refine (Nat.lt_or_eq_of_le hlen).imp_right fun hfull => ?_
    intro e he
    by_contra hne
    have hget : entries[0]? = some e := head?_eq_getElem? ▸ he
    have hmem : e ∈ entries := mem_of_getElem? hget
    have hrow := rowAt_of_covers hsorted hmem (covers_pcStart hne)
    rw [← hall, hlookup, cfiSearch_of_covers hsorted hlen hget (covers_pcStart hne) (hends e hmem),
      if_pos ⟨hfull, rfl⟩] at hrow
    cases hrow
  · rintro ⟨hfirst, hends⟩ relPc
    rw [hlookup]
    cases hrow : rowAt entries relPc with
    | none =>
      cases hfound : cfiSearch entries relPc binarySearchMaxIters 0 entries.length with
      | none => rfl
      | some e =>
        obtain ⟨he, hcov, -⟩ := cfiSearch_sound hfound
        rw [rowAt_of_covers hsorted he hcov] at hrow
        cases hrow
    | some e =>
      obtain ⟨he, hcov⟩ := covers_of_rowAt hrow
      obtain ⟨j, hj⟩ := mem_iff_getElem?.mp he
      rw [cfiSearch_of_covers hsorted hlen hj hcov (hends e he), if_neg]
      rintro ⟨hfull, rfl⟩
      obtain hlt | hempty := hfirst
      · exact absurd hfull (Nat.ne_of_lt hlt)
      · have hdelta := hempty e (head?_eq_getElem? ▸ hj)
        have hpos := lt_of_le_of_lt hcov.1 hcov.2
        rw [CFIEntry.pcEnd, hdelta] at hpos
        exact absurd hpos (Nat.lt_irrefl _)

def unitRow (i : Nat) : CFIEntry where
  pcStart := UInt64.ofNat i
  pcEndDelta := 1
  cfaType := .sp
  fpType := .sameValue
  cfaOffset := 8
  fpOffset := 0
  raOffset := -8
  raType := .offsetCFA

theorem installed_searchable_two :
    (({} : Tables).populateCFI 5 [unitRow 0, unitRow 7] none).1.cfiLookup 5 7 = some (unitRow 7) ∧
      (({} : Tables).populateCFI 5 [unitRow 0, unitRow 7] none).1.cfiLookup 5 3 = none := by
  have hsorted : InOrder [unitRow 0, unitRow 7] := by
    unfold InOrder
    decide
  have h : ({} : Tables).populateCFI 5 [unitRow 0, unitRow 7] none =
      ((({} : Tables).populateCFI 5 [unitRow 0, unitRow 7] none).1, none) := rfl
  have hfound := (installed_searchable_iff hsorted h).mpr ⟨.inl (by decide), by decide⟩
  exact ⟨(hfound 7).trans (by decide), (hfound 3).trans (by decide)⟩

def fullTable : List CFIEntry := (List.range maxSearchableRows).map unitRow

theorem fullTable_length : fullTable.length = maxSearchableRows := by
  rw [fullTable, length_map, length_range]

theorem fullTable_get {i : Nat} (h : i < fullTable.length) : fullTable[i] = unitRow i := by
  simp [fullTable]

theorem fullTable_inOrder : InOrder fullTable := by
  refine pairwise_iff_getElem.mpr ?_
  intro i j hi hj hij
  rw [fullTable_get hi, fullTable_get hj]
  rw [fullTable_length] at hj
  have hmax : maxSearchableRows < 2 ^ 64 := by decide
  show (UInt64.ofNat i).toNat + 1 ≤ (UInt64.ofNat j).toNat
  rw [UInt64.toNat_ofNat', UInt64.toNat_ofNat', Nat.mod_eq_of_lt (by omega), Nat.mod_eq_of_lt (by omega)]
  exact hij

theorem fullTable_populate : ∃ m', ({} : Tables).populateCFI 1 fullTable none = (m', none) := by
  unfold Tables.populateCFI
  rw [if_neg (by rw [fullTable_length]; decide), if_neg (by rw [fullTable_length]; exact Nat.lt_irrefl _)]
  exact ⟨_, rfl⟩

/-- `PopulateCFI` installs a table of `2 ^ 24` rows, and the walker does not find the first one. -/
theorem first_row_lost : ∃ m', InOrder fullTable ∧ ({} : Tables).populateCFI 1 fullTable none = (m', none) ∧
      rowAt fullTable 0 = some (unitRow 0) ∧ m'.cfiLookup 1 0 = none := by
  obtain ⟨m', h⟩ := fullTable_populate
  obtain ⟨hlen, hlookup⟩ := cfiLookup_populateCFI h
  have hpos : 0 < fullTable.length := by
    rw [fullTable_length]
    decide
  have hget : fullTable[0]? = some (unitRow 0) := by
    rw [getElem?_eq_getElem hpos, fullTable_get hpos]
  have hcov : (unitRow 0).Covers (0 : UInt64).toNat := by decide
  refine ⟨m', fullTable_inOrder, h, ?_, ?_⟩
  · exact rowAt_of_covers fullTable_inOrder (mem_of_getElem? hget) hcov
  · rw [hlookup, cfiSearch_of_covers fullTable_inOrder hlen hget hcov (by decide), if_pos]
    exact ⟨fullTable_length, rfl⟩

end PerfAgent.Unwind
