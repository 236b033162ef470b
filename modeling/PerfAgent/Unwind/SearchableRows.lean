import Mathlib.Data.List.Pairwise
import PerfAgent.Unwind.Emissions

/-!
# When the table can be searched

The walker looks a pc up by binary search, so the rows have to be sorted and disjoint.  They are
where every emission stays in the range of the FDE and off the rows of the CIE's instructions.
The interpreter checks neither: an instruction may move past the end of the range, and the rows of
the CIE's instructions, of which there should be none, are kept.
-/

namespace PerfAgent.Unwind

open List Option

/-! ## What a table should be -/

def FDE.pcEnd (f : FDE) : Nat := f.initialLocation.toNat + f.addressRange.toNat

def FDE.Contains (f : FDE) (pc : Nat) : Prop := f.initialLocation.toNat ≤ pc ∧ pc < f.pcEnd

def RangesDisjoint (fdes : List Compiled) : Prop :=
  fdes.Pairwise fun p q => ∀ pc, ¬(p.fde.Contains pc ∧ q.fde.Contains pc)

/-- What `sort.Slice` may make of the rows. -/
structure SortsTo (allEntries rows : List CFIEntry) : Prop where
  perm : rows.Perm allEntries
  sorted : rows.Pairwise fun e e' => e.pcStart ≤ e'.pcStart

/-- The rows that `Compile` returns can be searched. -/
structure Searchable (fdes : List Compiled) (rows : List CFIEntry) : Prop where
  sorted : rows.Pairwise fun e e' => e.pcStart ≤ e'.pcStart
  nonempty : ∀ e ∈ rows, 0 < e.pcEndDelta
  disjoint : rows.Pairwise fun e e' => ∀ pc, ¬(e.Covers pc ∧ e'.Covers pc)
  inside : ∀ p ∈ fdes, ∀ e ∈ p.rows, ∀ pc, e.Covers pc → p.fde.Contains pc
  atMostOne : ∀ pc, (rows.filter fun e => e.Covers pc).length ≤ 1
  same : ∀ pc, (rows.find? fun e => e.Covers pc) = (fdes.flatMap Compiled.rows).find? fun e => e.Covers pc

/-! ## The condition -/

namespace Interp

/-- Where what is emitted starts in the table: at the end of the row that is extended. -/
def pieceStart (s : Interp) : Nat := s.openRow.elim s.lastEmittedPC.toNat CFIEntry.pcEnd

def pieceEnd (s : Interp) (newPC : UInt64) : Nat := s.pieceStart + (newPC.toNat - s.lastEmittedPC.toNat)

end Interp

/-- What is emitted ends in the range of the FDE, and is off the other rows. -/
def FDE.Fits (f : FDE) (s : Interp) (a : FDE.Action) : Prop :=
  ∀ newPC ∈ f.target s a, s.Emits newPC →
    s.pieceEnd newPC ≤ f.pcEnd ∧ ∀ e ∈ s.closedRows, e.pcEnd ≤ s.pieceStart ∨ s.pieceEnd newPC ≤ e.pcStart.toNat

/-- The row that is there after emission is short enough for its length. -/
def FDE.Short (f : FDE) (s : Interp) (a : FDE.Action) : Prop :=
  ∀ newPC ∈ f.target s a, s.Emits newPC →
    s.openRow.elim 0 (fun e => e.pcEndDelta.toNat) + (newPC.toNat - s.lastEmittedPC.toNat) < 2 ^ 32

section Decide

variable (f : FDE) (s : Interp) (a : FDE.Action)

-- of one address, not of all
instance : Decidable (f.Short s a) := Option.decidableForallMem (f.target s a)

end Decide

/-! ## The rows of one FDE -/

def CFIEntry.Apart (e e' : CFIEntry) : Prop := e.pcEnd ≤ e'.pcStart.toNat ∨ e'.pcEnd ≤ e.pcStart.toNat

structure FDE.Holds (f : FDE) (rows : List CFIEntry) : Prop where
  inside : ∀ e ∈ rows, f.initialLocation.toNat ≤ e.pcStart.toNat ∧ e.pcEnd ≤ f.pcEnd
  apart : rows.Pairwise CFIEntry.Apart

theorem FDE.holds_cons {f : FDE} {e : CFIEntry} {rows : List CFIEntry} : f.Holds (e :: rows) ↔
      f.Holds rows ∧ (f.initialLocation.toNat ≤ e.pcStart.toNat ∧ e.pcEnd ≤ f.pcEnd) ∧ ∀ e' ∈ rows, e.Apart e' := by
  constructor
  · rintro ⟨hin, hapart⟩
    obtain ⟨hfirst, hrest⟩ := pairwise_cons.mp hapart
    exact ⟨⟨fun e' he' => hin e' (mem_cons_of_mem _ he'), hrest⟩, hin e mem_cons_self, hfirst⟩
  · rintro ⟨⟨hin, hapart⟩, hfirst, hrest⟩
    exact ⟨forall_mem_cons.mpr ⟨hfirst, hin⟩, pairwise_cons.mpr ⟨hrest, hapart⟩⟩

/-- What no step changes: no row is empty, and none starts before the FDE. -/
structure FDE.Keeps (f : FDE) (s : Interp) : Prop where
  from_start : f.initialLocation.toNat ≤ s.lastEmittedPC.toNat
  rows : ∀ e ∈ s.emitted, 0 < e.pcEndDelta.toNat ∧ f.initialLocation.toNat ≤ e.pcStart.toNat

section Snapshot

variable {f : FDE} {s : Interp} {newPC : UInt64}

theorem grownRow_pcEnd (h : s.Emits newPC)
    (hshort : s.openRow.elim 0 (fun e => e.pcEndDelta.toNat) + (newPC.toNat - s.lastEmittedPC.toNat) < 2 ^ 32) :
    (s.grownRow newPC).pcEnd = s.pieceEnd newPC ∧ 0 < (s.grownRow newPC).pcEndDelta.toNat := by
  have hlt : s.lastEmittedPC.toNat < newPC.toNat := h.1
  have hdelta := delta_toNat (le_of_lt hlt) (by omega)
  unfold Interp.grownRow Interp.pieceEnd Interp.pieceStart
  cases hopen : s.openRow with
  | none =>
    unfold CFIEntry.pcEnd Interp.newRow
    dsimp only [elim_none]
    omega
  | some e =>
    rw [hopen, elim_some] at hshort
    have hadd : (e.pcEndDelta + (newPC - s.lastEmittedPC).toUInt32).toNat =
        e.pcEndDelta.toNat + (newPC.toNat - s.lastEmittedPC.toNat) := by
      rw [UInt32.toNat_add, hdelta, Nat.mod_eq_of_lt hshort]
    unfold CFIEntry.pcEnd
    dsimp only [elim_some]
    omega

theorem holds_grownRow (hkeep : f.Keeps s) (h : s.Emits newPC)
    (hshort : s.openRow.elim 0 (fun e => e.pcEndDelta.toNat) + (newPC.toNat - s.lastEmittedPC.toNat) < 2 ^ 32) :
    f.Holds (s.grownRow newPC :: s.closedRows) ↔ f.Holds s.emitted ∧ s.pieceEnd newPC ≤ f.pcEnd ∧
        ∀ e ∈ s.closedRows, e.pcEnd ≤ s.pieceStart ∨ s.pieceEnd newPC ≤ e.pcStart.toNat := by
  obtain ⟨hend, -⟩ := grownRow_pcEnd h hshort
  have hlt : s.lastEmittedPC.toNat < newPC.toNat := h.1
  rw [FDE.holds_cons, hend]
  cases hopen : s.openRow with
  | none =>
    have hstart : (s.grownRow newPC).pcStart.toNat = s.pieceStart := by
      rw [Interp.grownRow, Interp.pieceStart, hopen]
      rfl
    have hin : f.initialLocation.toNat ≤ s.pieceStart := by
      rw [Interp.pieceStart, hopen]
      exact hkeep.from_start
    rw [Interp.emitted_of_openRow_none hopen]
    refine and_congr_right fun _ => ?_
    unfold CFIEntry.Apart
    rw [hend, hstart]
    constructor
    · rintro ⟨⟨-, hlast⟩, hapart⟩
      exact ⟨hlast, fun e he => (hapart e he).symm⟩
    · rintro ⟨hlast, hapart⟩
      exact ⟨⟨hin, hlast⟩, fun e he => (hapart e he).symm⟩
  | some e =>
    have hstart : (s.grownRow newPC).pcStart = e.pcStart := by
      rw [Interp.grownRow, hopen]
    have hpiece : s.pieceStart = e.pcEnd := by
      rw [Interp.pieceStart, hopen]
      rfl
    have hgrow : e.pcEnd < s.pieceEnd newPC := by
      rw [Interp.pieceEnd, hpiece]
      omega
    have hemitted := Interp.emitted_of_openRow hopen
    have hrow := hkeep.rows e (hemitted ▸ mem_cons_self)
    rw [hemitted, FDE.holds_cons, hpiece]
    unfold CFIEntry.Apart
    rw [hend, hstart]
    have hnonempty : ∀ e' ∈ s.closedRows, e'.pcStart.toNat < e'.pcEnd := by
      intro e' he'
      have := (hkeep.rows e' (hemitted ▸ mem_cons_of_mem _ he')).1
      unfold CFIEntry.pcEnd
      omega
    have hlen : e.pcStart.toNat < e.pcEnd := by
      have := hrow.1
      unfold CFIEntry.pcEnd
      omega
    constructor
    · rintro ⟨hrows, ⟨-, hlast⟩, hapart⟩
      refine ⟨⟨hrows, ⟨hrow.2, by omega⟩, ?_⟩, hlast, ?_⟩
      · intro e' he'
        have := hapart e' he'
        omega
      · intro e' he'
        have := hapart e' he'
        have := hnonempty e' he'
        omega
    · rintro ⟨⟨hrows, ⟨hfirst, -⟩, hapart⟩, hlast, hoff⟩
      refine ⟨hrows, ⟨hfirst, hlast⟩, ?_⟩
      intro e' he'
      have := hapart e' he'
      have := hoff e' he'
      have := hnonempty e' he'
      omega

end Snapshot

section Step

variable {f : FDE} {s s' : Interp} {a : FDE.Action}

theorem Interp.closedRows_subset (s : Interp) : s.closedRows ⊆ s.emitted := by
  unfold Interp.closedRows
  split
  · exact tail_subset _
  · exact fun _ he => he

theorem FDE.Keeps.step (h : f.Keeps s) (hshort : f.Short s a) (hstep : f.next s a = some s') : f.Keeps s' := by
  obtain ⟨hemitted, -, hlast⟩ := FDE.next_frame hstep
  constructor
  · rw [hlast]
    split
    · exact le_refl _
    · cases htarget : f.target s a with
      | none => exact h.from_start
      | some newPC =>
        show _ ≤ (s.snapshot newPC).lastEmittedPC.toNat
        rw [Interp.snapshot_lastEmittedPC_eq]
        split
        · next hlt => exact le_trans h.from_start (UInt64.le_of_lt hlt)
        · exact h.from_start
  · rw [hemitted]
    cases htarget : f.target s a with
    | none => exact h.rows
    | some newPC =>
      rw [elim_some, Interp.snapshot_emitted]
      split
      · next hemits =>
        refine forall_mem_cons.mpr ⟨⟨?_, ?_⟩, fun e he => h.rows e (s.closedRows_subset he)⟩
        · exact (grownRow_pcEnd hemits (hshort newPC htarget hemits)).2
        · unfold Interp.grownRow
          cases hopen : s.openRow with
          | none => exact h.from_start
          | some e => exact (h.rows e (Interp.emitted_of_openRow hopen ▸ mem_cons_self)).2
      · exact h.rows

theorem FDE.Keeps.holds_iff (h : f.Keeps s) (hshort : f.Short s a) (hstep : f.next s a = some s') :
    f.Holds s'.emitted ↔ f.Holds s.emitted ∧ f.Fits s a := by
  obtain ⟨hemitted, -, -⟩ := FDE.next_frame hstep
  rw [hemitted]
  unfold FDE.Fits
  cases htarget : f.target s a with
  | none => exact ⟨fun h => ⟨h, nofun⟩, fun h => h.1⟩
  | some newPC =>
    rw [elim_some, Interp.snapshot_emitted]
    split
    · next hemits =>
      rw [holds_grownRow h hemits (hshort newPC htarget hemits)]
      refine and_congr_right fun _ => ⟨?_, fun h => h newPC rfl hemits⟩
      rintro h _ ⟨⟩ -
      exact h
    · next hemits =>
      refine ⟨fun h => ⟨h, ?_⟩, fun h => h.1⟩
      rintro _ ⟨⟩ hemits'
      exact absurd hemits' hemits

end Step

/-! ## The FDE -/

theorem FDE.keeps_opening (f : FDE) (arch : ArchInfo) : f.Keeps (f.opening arch) where
  from_start := le_refl _
  rows := nofun

theorem FDE.holds_reverse {f : FDE} {rows : List CFIEntry} : f.Holds rows.reverse ↔ f.Holds rows := by
  have hsymm : ∀ {e e' : CFIEntry}, e.Apart e' → e'.Apart e := Or.symm
  constructor
  · rintro ⟨hin, hapart⟩
    refine ⟨fun e he => hin e (mem_reverse.mpr he), ?_⟩
    exact (pairwise_reverse.mp hapart).imp hsymm
  · rintro ⟨hin, hapart⟩
    refine ⟨fun e he => hin e (mem_reverse.mp he), ?_⟩
    exact pairwise_reverse.mpr (hapart.imp hsymm)

section Rows

variable {f : FDE} {fuel : Nat} {arch : ArchInfo} {rows : List CFIEntry}

theorem FDE.rows_nonempty (h : compileFDE fuel arch f = .ok rows) (hshort : f.Meets f.Short fuel arch) :
    ∀ e ∈ rows, e.pcStart.toNat < e.pcEnd := by
  obtain ⟨s, hs, rfl⟩ := hshort.rows h
  have hkeep : f.Keeps s := hs.invariant (I := fun _ s => f.Keeps s) (f.keeps_opening arch)
    fun _ s a s' _ hs ha => hs.step ha.1 ha.2
  intro e he
  exact Nat.lt_add_of_pos_right (hkeep.rows e (mem_reverse.mp he)).1

theorem FDE.holds_iff_fits (h : compileFDE fuel arch f = .ok rows) (hshort : f.Meets f.Short fuel arch) :
    f.Holds rows ↔ f.Meets f.Fits fuel arch := by
  obtain ⟨s, hs, rfl⟩ := hshort.rows h
  have hiff := hs.iff_guarded (I := f.Keeps) (G := fun s => f.Holds s.emitted) (P := f.Fits)
    (f.keeps_opening arch) ⟨nofun, .nil⟩
    fun s a s' hkeep ha => ⟨hkeep.step ha.1 ha.2, hkeep.holds_iff ha.1 ha.2⟩
  rw [Interp.entries, FDE.holds_reverse, hiff]
  constructor
  · intro hrun
    exact ⟨s, hrun.mono fun _ _ _ h => ⟨h.1, h.2.2⟩⟩
  · rintro ⟨s', hrun⟩
    obtain rfl : s' = s := Run.unique (hrun.mono fun _ _ _ h => h.2) (hs.mono fun _ _ _ h => h.2)
    exact hrun.both hs

end Rows

/-! ## The table -/

def CFIEntry.Exclusive (e e' : CFIEntry) : Prop := ∀ pc, ¬(e.Covers pc ∧ e'.Covers pc)

theorem CFIEntry.Exclusive.symm {e e' : CFIEntry} (h : e.Exclusive e') : e'.Exclusive e :=
  fun pc hpc => h pc hpc.symm

theorem CFIEntry.exclusive_iff {e e' : CFIEntry} (he : e.pcStart.toNat < e.pcEnd)
    (he' : e'.pcStart.toNat < e'.pcEnd) : e.Exclusive e' ↔ e.Apart e' := by
  unfold CFIEntry.Exclusive CFIEntry.Covers CFIEntry.Apart
  constructor
  · intro h
    have := h (max e.pcStart.toNat e'.pcStart.toNat)
    omega
  · intro h pc
    omega

theorem FDE.holds_iff {f : FDE} {rows : List CFIEntry} (h : ∀ e ∈ rows, e.pcStart.toNat < e.pcEnd) : f.Holds rows ↔
      (∀ e ∈ rows, ∀ pc, e.Covers pc → f.Contains pc) ∧ rows.Pairwise CFIEntry.Exclusive := by
  have hpair : rows.Pairwise CFIEntry.Exclusive ↔ rows.Pairwise CFIEntry.Apart :=
    List.Pairwise.iff_of_mem fun ha hb => CFIEntry.exclusive_iff (h _ ha) (h _ hb)
  rw [hpair]
  constructor
  · rintro ⟨hin, hapart⟩
    refine ⟨?_, hapart⟩
    intro e he pc ⟨hlo, hhi⟩
    have := hin e he
    exact ⟨by omega, by omega⟩
  · rintro ⟨hin, hapart⟩
    refine ⟨?_, hapart⟩
    intro e he
    have hlt := h e he
    have hfirst := hin e he e.pcStart.toNat ⟨le_refl _, hlt⟩
    have hlast := hin e he (e.pcEnd - 1) ⟨by omega, by omega⟩
    have := hlast.2
    exact ⟨hfirst.1, by omega⟩

instance : Std.Symm CFIEntry.Exclusive := ⟨fun _ _ => CFIEntry.Exclusive.symm⟩

section Lookup

variable {rows allEntries : List CFIEntry} {pc : Nat}

theorem find?_covers_eq_some (h : rows.Pairwise CFIEntry.Exclusive) {e : CFIEntry} :
    (rows.find? fun e => e.Covers pc) = some e ↔ e ∈ rows ∧ e.Covers pc := by
  constructor
  · intro he
    have hpc := find?_some he
    exact ⟨mem_of_find?_eq_some he, of_decide_eq_true hpc⟩
  · rintro ⟨he, hpc⟩
    have hsome : (rows.find? fun e => e.Covers pc).isSome :=
      find?_isSome.mpr ⟨e, he, decide_eq_true hpc⟩
    obtain ⟨e', he'⟩ := isSome_iff_exists.mp hsome
    have hfound := find?_some he'
    have hpc' : e'.Covers pc := of_decide_eq_true hfound
    have heq : e' = e := by
      by_contra hne
      exact h.forall (mem_of_find?_eq_some he') he hne pc ⟨hpc', hpc⟩
    rw [he', heq]

theorem find?_covers_perm (h : rows.Pairwise CFIEntry.Exclusive) (hperm : rows.Perm allEntries) :
    (rows.find? fun e => e.Covers pc) = allEntries.find? fun e => e.Covers pc := by
  have h' : allEntries.Pairwise CFIEntry.Exclusive := (hperm.pairwise_iff CFIEntry.Exclusive.symm).mp h
  ext e
  rw [find?_covers_eq_some h, find?_covers_eq_some h', hperm.mem_iff]

theorem filter_covers_length (h : rows.Pairwise CFIEntry.Exclusive) :
    (rows.filter fun e => e.Covers pc).length ≤ 1 := by
  have hfilter := h.filter fun e => e.Covers pc
  cases hrows : rows.filter fun e => e.Covers pc with
  | nil => exact Nat.zero_le _
  | cons e es =>
    cases es with
    | nil => exact le_refl _
    | cons e' es =>
      rw [hrows] at hfilter
      have hcovers : ∀ x ∈ e :: e' :: es, x.Covers pc := by
        rw [← hrows]
        exact fun x hx => of_decide_eq_true (mem_filter.mp hx).2
      have hboth := (pairwise_cons.mp hfilter).1 e' mem_cons_self
      exact (hboth pc ⟨hcovers e (by simp), hcovers e' (by simp)⟩).elim

end Lookup

section Table

variable {fdes : List Compiled} {rows allEntries : List CFIEntry}

theorem exclusive_flatMap (hranges : RangesDisjoint fdes)
    (hin : ∀ p ∈ fdes, ∀ e ∈ p.rows, ∀ pc, e.Covers pc → p.fde.Contains pc)
    (hrows : ∀ p ∈ fdes, p.rows.Pairwise CFIEntry.Exclusive) :
    (fdes.flatMap Compiled.rows).Pairwise CFIEntry.Exclusive := by
  refine pairwise_flatMap.mpr ⟨hrows, hranges.imp_of_mem ?_⟩
  intro p q hp hq hpq e he e' he' pc hpc
  exact hpq pc ⟨hin p hp e he pc hpc.1, hin q hq e' he' pc hpc.2⟩

theorem searchable_iff (hsort : SortsTo (fdes.flatMap Compiled.rows) rows) (hranges : RangesDisjoint fdes)
    (hnonempty : ∀ p ∈ fdes, ∀ e ∈ p.rows, e.pcStart.toNat < e.pcEnd) :
    Searchable fdes rows ↔ ∀ p ∈ fdes, p.fde.Holds p.rows := by
  constructor
  · intro h p hp
    refine (FDE.holds_iff (hnonempty p hp)).mpr ⟨h.inside p hp, ?_⟩
    have hall := (hsort.perm.pairwise_iff CFIEntry.Exclusive.symm).mp h.disjoint
    exact (pairwise_flatMap.mp hall).1 p hp
  · intro h
    have hholds := fun p hp => (FDE.holds_iff (hnonempty p hp)).mp (h p hp)
    have hin := fun p hp => (hholds p hp).1
    have hall := exclusive_flatMap hranges hin fun p hp => (hholds p hp).2
    have hrows : rows.Pairwise CFIEntry.Exclusive :=
      (hsort.perm.pairwise_iff CFIEntry.Exclusive.symm).mpr hall
    refine ⟨hsort.sorted, ?_, hrows, hin, ?_, ?_⟩
    · intro e he
      obtain ⟨p, hp, he⟩ := mem_flatMap.mp (hsort.perm.mem_iff.mp he)
      exact Nat.pos_of_lt_add_right (hnonempty p hp e he)
    · exact fun pc => filter_covers_length hrows
    · exact fun pc => find?_covers_perm hrows hsort.perm

end Table

/-- The table can be searched exactly if everything that its FDEs emit fits. -/
theorem searchable_iff_fits {fuel : Nat} {data : Slice UInt8} {sectionPos : UInt64} {arch : ArchInfo}
    {allEntries rows : List CFIEntry} (h : compileSection fuel data sectionPos arch = .ok allEntries)
    (hsort : SortsTo allEntries rows) (hranges : RangesDisjoint (compiledSection fuel data sectionPos arch))
    (hshort : ∀ p ∈ compiledSection fuel data sectionPos arch, p.fde.Meets p.fde.Short fuel arch) :
    Searchable (compiledSection fuel data sectionPos arch) rows ↔
      ∀ p ∈ compiledSection fuel data sectionPos arch, p.fde.Meets p.fde.Fits fuel arch := by
  rw [compileSection_eq h] at hsort
  rw [searchable_iff hsort hranges fun p hp => p.fde.rows_nonempty (compileFDE_of_mem hp) (hshort p hp)]
  refine forall₂_congr fun p hp => ?_
  exact p.fde.holds_iff_fits (compileFDE_of_mem hp) (hshort p hp)

theorem RangesDisjoint.of_apart {fdes : List Compiled} (h : fdes.Pairwise fun p q =>
      p.fde.pcEnd ≤ q.fde.initialLocation.toNat ∨ q.fde.pcEnd ≤ p.fde.initialLocation.toNat) :
    RangesDisjoint fdes := by
  refine h.imp ?_
  rintro p q hpq pc ⟨⟨hlo, hhi⟩, hlo', hhi'⟩
  omega

/-- A CIE and two FDEs, with the prologues of two functions that stand side by side. -/
def twoFunctions : Slice UInt8 :=
  .ofList [0x14, 0, 0, 0, 0, 0, 0, 0, 1, 0x7a, 0x52, 0, 1, 0x78, 0x10, 1, 0x1b, 0x0c, 0x07, 0x08, 0x90, 0x01, 0, 0,
      0x14, 0, 0, 0, 0x1c, 0, 0, 0, 0xe0, 0x0f, 0, 0, 0x10, 0, 0, 0, 0, 0x41, 0x0e, 0x10, 0x86, 0x02, 0x43, 0,
      0x14, 0, 0, 0, 0x34, 0, 0, 0, 0xd8, 0x0f, 0, 0, 0x08, 0, 0, 0, 0, 0x44, 0x0e, 0x10, 0, 0, 0, 0,
      0, 0, 0, 0] (by decide)

theorem searchable_twoFunctions : ∃ rows, compileSection 16 twoFunctions 0 archX86_64 = .ok rows ∧
      (Searchable (compiledSection 16 twoFunctions 0 archX86_64) rows ↔
        ∀ p ∈ compiledSection 16 twoFunctions 0 archX86_64, p.fde.Meets p.fde.Fits 16 archX86_64) := by
  have hsorted : (compileSection 16 twoFunctions 0 archX86_64).any
      (fun rows => rows.Pairwise fun e e' => e.pcStart ≤ e'.pcStart) = true := by decide +kernel
  obtain ⟨rows, hrows, hsorted⟩ := Outcome.exists_of_any hsorted
  refine ⟨rows, hrows, searchable_iff_fits hrows ⟨.refl _, of_decide_eq_true hsorted⟩ (.of_apart ?_) ?_⟩
  · decide +kernel
  · exact @of_decide_eq_true _ (List.decidableBAll (fun p : Compiled => p.fde.Meets p.fde.Short 16 archX86_64) _)
      (by decide +kernel)

/-- The same section, but the first function's one instruction moves to 16 bytes past its end. -/
def pastTheEnd : Slice UInt8 :=
  .ofList [0x14, 0, 0, 0, 0, 0, 0, 0, 1, 0x7a, 0x52, 0, 1, 0x78, 0x10, 1, 0x1b, 0x0c, 0x07, 0x08, 0x90, 0x01, 0, 0,
      0x14, 0, 0, 0, 0x1c, 0, 0, 0, 0xe0, 0x0f, 0, 0, 0x10, 0, 0, 0, 0, 0x60, 0, 0, 0, 0, 0, 0,
      0x14, 0, 0, 0, 0x34, 0, 0, 0, 0xd8, 0x0f, 0, 0, 0x08, 0, 0, 0, 0, 0x44, 0x0e, 0x10, 0, 0, 0, 0,
      0, 0, 0, 0] (by decide)

/-- The first function's row covers the second function. -/
theorem not_searchable :
    ¬∀ (fuel : Nat) (data : Slice UInt8) (sectionPos : UInt64) (arch : ArchInfo) (allEntries rows : List CFIEntry),
      compileSection fuel data sectionPos arch = .ok allEntries → SortsTo allEntries rows →
        RangesDisjoint (compiledSection fuel data sectionPos arch) →
          Searchable (compiledSection fuel data sectionPos arch) rows := by
  intro h
  have htwo : (compileSection 16 pastTheEnd 0 archX86_64).any (fun rows =>
      decide (rows.Pairwise fun e e' => e.pcStart ≤ e'.pcStart) &&
        decide ((rows.filter fun e => e.Covers 4112).length = 2)) = true := by decide +kernel
  obtain ⟨rows, hrows, hp⟩ := Outcome.exists_of_any htwo
  obtain ⟨hsorted, hcovers⟩ := (Bool.and_eq_true _ _).mp hp
  have hranges : RangesDisjoint (compiledSection 16 pastTheEnd 0 archX86_64) := .of_apart (by decide +kernel)
  have hone := (h 16 pastTheEnd 0 archX86_64 rows rows hrows ⟨.refl _, of_decide_eq_true hsorted⟩ hranges).atMostOne 4112
  rw [of_decide_eq_true hcovers] at hone
  exact absurd hone (by decide)

end PerfAgent.Unwind
