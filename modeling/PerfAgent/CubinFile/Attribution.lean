import PerfAgent.CubinFile.LineProgram
import PerfAgent.Lib.LatestAt

/-!
# Which row a position of a function is given

The rows of all sequences of a function are sorted into one table.  It says what the sequences say, in whatever
order they are in the section, if and only if every sequence stays in windows of the functions it is bound to and,
where one of them has a row, no other one of the function is cut off by it or says another line.
-/

namespace PerfAgent.CubinFile

open List

open Pprof (ascii)

/-! ## The table -/

def Row.offset (r : Row) : Nat := r.pcOffset.toNat

def Row.live (r : Row) : Bool := !r.endSequence

theorem Row.live_iff (r : Row) : r.live = true ↔ r.endSequence = false := by
  unfold live
  rw [Bool.not_eq_true']

def Row.location (r : Row) : Name × UInt32 := (r.file, r.line)

def rowsOf (rows : List (Name × Row)) (fn : Name) : List Row := (rows.filter fun r => r.1 = fn).map Prod.snd

theorem tableOf_eq (rows : List (Name × Row)) (fn : Name) :
    tableOf rows fn = (rowsOf rows fn).mergeSort fun r r' => r.offset ≤ r'.offset := rfl

variable {fn : Name}

theorem resolve_eq_answerAt {c : Cubin} {sz pc : UInt64} (hsz : c.size.find? fn = some sz) (hpc : pc < sz) :
    c.resolve fn pc = answerAt Row.live Row.location Row.offset pc.toNat (rowsOf c.rows fn) := by
  unfold answerAt
  rw [← latestAt_mergeSort, ← tableOf_eq]
  have hsorted : (tableOf c.rows fn).Pairwise fun r r' => r.offset ≤ r'.offset := pairwise_mergeSort_key Row.offset
  have hsearch : (if (sortSearch (tableOf c.rows fn).length fun i => (tableOf c.rows fn)[i]?.any fun r =>
      pc < r.pcOffset) = 0 then none else (tableOf c.rows fn)[(sortSearch (tableOf c.rows fn).length fun i =>
        (tableOf c.rows fn)[i]?.any fun r => pc < r.pcOffset) - 1]?) =
          latestAt Row.offset pc.toNat (tableOf c.rows fn) := getElem?_sortSearch_pred hsorted
  rw [← hsearch]
  unfold Cubin.resolve
  simp only
  split
  · next hnil =>
    rw [hnil]
    rfl
  · split
    · rfl
    · cases (tableOf c.rows fn)[(sortSearch (tableOf c.rows fn).length fun i =>
        (tableOf c.rows fn)[i]?.any fun r => pc < r.pcOffset) - 1]? with
      | none => rfl
      | some r =>
        simp only [Option.bind_some, hsz, Option.getD_some]
        cases hend : r.endSequence with
        | true => simp [Row.live, hend]
        | false =>
          simp only [Row.live, hend, Row.location]
          rw [if_neg (Bool.false_ne_true), if_neg fun h => UInt64.not_le.mpr hpc h.2]
          rfl

/-! ## Where an entry is filed -/

def windowOf (address : UInt64) : Nat := (address >>> seqShift).toNat

def placeOf (targets : List (Nat × Name)) (ent : LineEntry) : Option (Name × Row) :=
  match windowOf ent.address with
  | 0 => none
  | k + 1 => targets[k]?.map fun t =>
    (t.2,
      { pcOffset := ent.address - windowBase k, line := UInt32.ofInt ent.line, file := ent.file.getD []
        endSequence := ent.endSequence })

theorem placeOf_map (ρ : Nat → Nat) (targets : List (Nat × Name)) (ent : LineEntry) :
    placeOf (targets.map fun t => (ρ t.1, t.2)) ent = placeOf targets ent := by
  unfold placeOf
  cases windowOf ent.address with
  | zero => rfl
  | succ k =>
    simp only [getElem?_map, Option.map_map]
    rfl

theorem fileRow_eq_ok {size : AssocMap Name UInt64} {targets : List (Nat × Name)} {ent : LineEntry} {r : Name × Row}
    (h : fileRow size (windowsFrom 0 targets) ent = .ok r) : placeOf targets ent = some r := by
  unfold fileRow at h
  unfold placeOf windowOf
  cases hk : (ent.address >>> seqShift).toNat with
  | zero =>
    simp only [hk] at h
    rw [if_pos (.inl (by decide))] at h
    cases h
  | succ k =>
    have hidx : (((k + 1 : Nat) : Int) - 1).toNat = k := by omega
    simp only [hk, hidx, getElem?_windowsFrom, Nat.zero_add] at h
    split at h
    · cases h
    · cases ht : targets[k]? with
      | none => simp [ht] at h
      | some t =>
        simp only [ht, Option.map_some] at h
        split at h
        · cases h
        · cases h
          simp only [ht, Option.map_some]

theorem fileRows_eq_ok {size : AssocMap Name UInt64} {targets : List (Nat × Name)} {ents : List LineEntry}
    {rows : List (Name × Row)} (h : fileRows size (windowsFrom 0 targets) ents = .ok rows) :
    rows = ents.filterMap (placeOf targets) := by
  induction ents generalizing rows with
  | nil =>
    cases h
    rfl
  | cons ent ents ih =>
    obtain ⟨r, hr, h⟩ := Outcome.bind_eq_ok.mp h
    obtain ⟨rs, hrs, h⟩ := Outcome.bind_eq_ok.mp h
    cases h
    rw [filterMap_cons_some (fileRow_eq_ok hr), ih hrs]

section FileRows

variable {size : AssocMap Name UInt64} {seqs : List Sequence} {ents ents' : List LineEntry}

theorem fileRows_eq_ok_iff {rows : List (Name × Row)} :
    fileRows size seqs ents = .ok rows ↔ List.Forall₂ (fun ent r => fileRow size seqs ent = .ok r) ents rows := by
  induction ents generalizing rows with
  | nil =>
    constructor
    · rintro ⟨⟩
      exact .nil
    · rintro ⟨⟩
      rfl
  | cons ent ents ih =>
    constructor
    · intro h
      obtain ⟨r, hr, h⟩ := Outcome.bind_eq_ok.mp h
      obtain ⟨rs, hrs, h⟩ := Outcome.bind_eq_ok.mp h
      cases h
      exact .cons hr (ih.mp hrs)
    · rintro (_ | ⟨hr, hrs⟩)
      exact Outcome.bind_eq_ok.mpr ⟨_, hr, Outcome.bind_eq_ok.mpr ⟨_, ih.mpr hrs, rfl⟩⟩

theorem exists_fileRows (h : ∀ ent ∈ ents, ∃ r, fileRow size seqs ent = .ok r) :
    ∃ rows, fileRows size seqs ents = .ok rows := by
  induction ents with
  | nil => exact ⟨[], rfl⟩
  | cons ent ents ih =>
    obtain ⟨r, hr⟩ := h ent mem_cons_self
    obtain ⟨rs, hrs⟩ := ih fun ent' hent' => h ent' (mem_cons_of_mem _ hent')
    exact ⟨r :: rs, Outcome.bind_eq_ok.mpr ⟨r, hr, Outcome.bind_eq_ok.mpr ⟨rs, hrs, rfl⟩⟩⟩

theorem exists_fileRow {rows : List (Name × Row)} (h : fileRows size seqs ents = .ok rows) {ent : LineEntry}
    (hent : ent ∈ ents) : ∃ r ∈ rows, fileRow size seqs ent = .ok r := by
  induction fileRows_eq_ok_iff.mp h with
  | nil => cases hent
  | @cons ent' r ents rs hr hrs ih =>
    rcases mem_cons.mp hent with rfl | hent
    · exact ⟨r, mem_cons_self, hr⟩
    · obtain ⟨r', hr', heq⟩ := ih (fileRows_eq_ok_iff.mpr hrs) hent
      exact ⟨r', mem_cons_of_mem _ hr', heq⟩

end FileRows

/-! ## A module with its line program -/

variable {line' : List UInt8}

/-- A module that has a line section, the relocations of it, and the program that the section encodes; every
relocation against a device function is at an operand of the program. -/
structure Laid (libs : Libraries) where
  b : List UInt8
  f : File
  a : Admitted
  line : List UInt8
  rels : List (UInt64 × UInt64)
  program : LineProgram
  reaches : libs.ReachesLines b f a line
  accepted : acceptedRels f b = some rels
  encodes : libs.Encodes line program
  binds : ∀ t ∈ targetsOf a.funcBySym rels, t.1 ∈ program.operands

namespace Laid

variable {libs : Libraries} (m : Laid libs)

def targets : List (Nat × Name) := targetsOf m.a.funcBySym m.rels

def windows : List Sequence := windowsFrom 0 m.targets

def value (o : Nat) : UInt64 := operandValue o 0 m.targets (operandAt m.line o)

def boundTo (s : LineSeq) : List Name := (m.targets.filter fun t => t.1 ∈ s.operands).map Prod.snd

def rowsUnder (fn : Name) (s : LineSeq) : List Row := rowsOf ((s.entries m.value).filterMap (placeOf m.targets)) fn

/-- The row of the sequence covers the position: it is the last one at or below, and not the end. -/
def Covers (s : LineSeq) (fn : Name) (pc : UInt64) (r : Row) : Prop :=
  latestAt Row.offset pc.toNat (m.rowsUnder fn s) = some r ∧ r.endSequence = false

variable {m}

theorem operands_apart {o o' : Nat} (ho : o ∈ m.program.operands) (ho' : o' ∈ m.program.operands) :
    o = o' ∨ o + 8 ≤ o' ∨ o' + 8 ≤ o := by
  by_cases heq : o = o'
  · exact .inl heq
  · right
    have hsymm : Std.Symm fun o o' : Nat => o + 8 ≤ o' ∨ o' + 8 ≤ o := ⟨fun _ _ h => h.symm⟩
    exact m.encodes.apart.forall ho ho' heq

variable {seqs : List Sequence}

theorem readLines_eq (h : relocSequences m.f m.b m.line m.a.funcBySym = .ok (line', seqs)) :
    seqs = m.windows ∧ libs.readLines line' = .ok (m.program.entries m.value) := by
  obtain ⟨rfl, hrelocated⟩ := relocSequences_eq_ok (length_readSection m.reaches.section_) m.accepted h
  refine ⟨rfl, ?_⟩
  rw [m.encodes.reads line' hrelocated.length fun i hi => hrelocated.outside i fun t ht => hi t.1 (m.binds t ht)]
  unfold LineProgram.read LineProgram.entries
  refine congrArg Except.ok (flatMap_congr fun s hs => LineSeq.entries_congr fun o ho => ?_)
  have hop : o ∈ m.program.operands := mem_flatMap.mpr ⟨s, hs, ho⟩
  exact hrelocated.value o fun t ht => operands_apart (m.binds t ht) hop

theorem buildLineTable_eq (h : relocSequences m.f m.b m.line m.a.funcBySym = .ok (line', seqs)) :
    buildLineTable libs m.a.size m.f m.b m.line m.a.funcBySym =
      fileRows m.a.size m.windows (m.program.entries m.value) := by
  obtain ⟨rfl, hread⟩ := readLines_eq h
  unfold buildLineTable
  rw [h]
  simp only [Bind.bind]
  rw [hread]

theorem parse_eq : parse libs m.b =
      match buildLineTable libs m.a.size m.f m.b m.line m.a.funcBySym with
      | .ok rows =>
        .ok
          { funcs := m.a.funcs.map fun fn => { fn with hasLineInfo := tableOf rows fn.name ≠ [] }
            rows, size := m.a.size, hasDebugLine := true }
      | .error e => .ok { funcs := m.a.funcs, size := m.a.size, hasDebugLine := true, lineErr := some e }
      | .panic => .error .errPanic
      | .outOfFuel => .error .errPanic := by
  unfold parse
  rw [parseFile_of_reaches m.reaches, withLines_eq m.reaches]
  cases buildLineTable libs m.a.size m.f m.b m.line m.a.funcBySym <;> rfl

theorem of_parse {c : Cubin} (hc : parse libs m.b = .ok c) (hlines : c.lineErr = none) :
    (∃ r, relocSequences m.f m.b m.line m.a.funcBySym = .ok r) ∧ c.size = m.a.size ∧
      fileRows m.a.size m.windows (m.program.entries m.value) = .ok c.rows := by
  rw [parse_eq] at hc
  cases htable : buildLineTable libs m.a.size m.f m.b m.line m.a.funcBySym with
  | ok rows =>
    rw [htable] at hc
    cases hc
    obtain ⟨r, hr, _⟩ := Outcome.bind_eq_ok.mp htable
    rw [buildLineTable_eq hr] at htable
    exact ⟨⟨r, hr⟩, rfl, htable⟩
  | error e =>
    rw [htable] at hc
    cases hc
    cases hlines
  | panic =>
    rw [htable] at hc
    cases hc
  | outOfFuel =>
    rw [htable] at hc
    cases hc

theorem exists_parse {r : List UInt8 × List Sequence} (hr : relocSequences m.f m.b m.line m.a.funcBySym = .ok r)
    {rows : List (Name × Row)} (hrows : fileRows m.a.size m.windows (m.program.entries m.value) = .ok rows) :
    ∃ c, parse libs m.b = .ok c ∧ c.lineErr = none := by
  rw [parse_eq, buildLineTable_eq hr, hrows]
  exact ⟨_, rfl, rfl⟩

theorem rowsOf_eq {c : Cubin} (hc : parse libs m.b = .ok c) (hlines : c.lineErr = none) (fn : Name) :
    rowsOf c.rows fn = m.program.seqs.flatMap (m.rowsUnder fn) := by
  have hrows := fileRows_eq_ok (of_parse hc hlines).2.2
  rw [hrows]
  unfold rowsOf LineProgram.entries
  induction m.program.seqs with
  | nil => rfl
  | cons s ss ih =>
    rw [flatMap_cons, flatMap_cons, filterMap_append, filter_append, map_append, ih]
    rfl

theorem resolve_eq {c : Cubin} (hc : parse libs m.b = .ok c) (hlines : c.lineErr = none) {sz pc : UInt64}
    (hsz : m.a.size.find? fn = some sz) (hpc : pc < sz) :
    c.resolve fn pc = answerAt Row.live Row.location Row.offset pc.toNat (m.program.seqs.flatMap (m.rowsUnder fn)) := by
  have hsize := (of_parse hc hlines).2.1
  rw [resolve_eq_answerAt (hsize ▸ hsz) hpc, rowsOf_eq hc hlines]

theorem covers_iff {s : LineSeq} {pc : UInt64} {v : Name × UInt32} :
    answerAt Row.live Row.location Row.offset pc.toNat (m.rowsUnder fn s) = some v ↔
      ∃ r, m.Covers s fn pc r ∧ v = (r.file, r.line) := by
  unfold answerAt Covers
  cases latestAt Row.offset pc.toNat (m.rowsUnder fn s) with
  | none => simp
  | some r =>
    rw [Option.bind_some]
    by_cases hlive : r.live = true
    · rw [if_pos hlive]
      constructor
      · rintro ⟨⟩
        exact ⟨r, ⟨rfl, r.live_iff.mp hlive⟩, rfl⟩
      · rintro ⟨_, ⟨⟨⟩, _⟩, rfl⟩
        rfl
    · rw [if_neg hlive]
      refine iff_of_false nofun ?_
      rintro ⟨_, ⟨⟨⟩, hend⟩, _⟩
      exact hlive (r.live_iff.mpr hend)

/-! ## The same sequences in another order -/

/-- Another module has the same sequences in another order, its operands elsewhere and bound to the same functions. -/
structure Reorders {libs' : Libraries} (m' : Laid libs') (m : Laid libs) (ρ : Nat → Nat) : Prop where
  size : m'.a.size = m.a.size
  targets : m'.targets = m.targets.map fun t => (ρ t.1, t.2)
  seqs : ∃ ss : List LineSeq, ss.Perm m.program.seqs ∧ m'.program.seqs = ss.map (LineSeq.rename ρ)
  injective : ∀ o ∈ m.program.operands, ∀ o' ∈ m.program.operands, ρ o = ρ o' → o = o'
  literals : ∀ o ∈ m.program.operands, operandAt m'.line (ρ o) = operandAt m.line o

theorem Reorders.rowsUnder_rename {libs' : Libraries} {m' : Laid libs'} {ρ : Nat → Nat} (h : m'.Reorders m ρ)
    (fn : Name) {s : LineSeq} (hs : s ∈ m.program.seqs) : m'.rowsUnder fn (s.rename ρ) = m.rowsUnder fn s := by
  have hbinds : ∀ t ∈ m.targets, t.1 ∈ m.program.operands := m.binds
  have hvalue : ∀ o ∈ s.operands, (m'.value ∘ ρ) o = m.value o := fun o ho => by
    have hop : o ∈ m.program.operands := mem_flatMap.mpr ⟨s, hs, ho⟩
    change operandValue (ρ o) 0 m'.targets (operandAt m'.line (ρ o)) = operandValue o 0 m.targets (operandAt m.line o)
    rw [h.targets, h.literals o hop, operandValue_rename fun t ht => h.injective t.1 (hbinds t ht) o hop]
  have hplace : placeOf m'.targets = placeOf m.targets := by
    rw [h.targets]
    exact funext (placeOf_map ρ m.targets)
  unfold rowsUnder
  rw [LineSeq.entries_rename, LineSeq.entries_congr hvalue, hplace]

/-- The library that reads the same sequences in another order out of the same section. -/
def reordered (ss : List LineSeq) (hss : ss.Perm m.program.seqs) :
    Laid { libs with readLines := LineProgram.read ⟨ss⟩ } where
  b := m.b
  f := m.f
  a := m.a
  line := m.line
  rels := m.rels
  program := ⟨ss⟩
  reaches := ⟨m.reaches.file, m.reaches.machine, m.reaches.encoding, m.reaches.admitted, m.reaches.section_,
    m.reaches.nonempty⟩
  accepted := m.accepted
  encodes := ⟨m.encodes.apart.perm (hss.flatMap_right _).symm Or.symm, fun _ _ _ => rfl⟩
  binds t ht := (hss.flatMap_right _).mem_iff.mpr (m.binds t ht)

theorem reorders_reordered (ss : List LineSeq) (hss : ss.Perm m.program.seqs) : (m.reordered ss hss).Reorders m id where
  size := rfl
  targets := (map_id' m.targets).symm
  seqs := ⟨ss, hss, by rw [map_congr_left fun s _ => s.rename_id, map_id']; rfl⟩
  injective _ _ _ _ h := h
  literals _ _ := rfl

theorem exists_parse_reordered {c : Cubin} (hc : parse libs m.b = .ok c) (hlines : c.lineErr = none)
    (ss : List LineSeq) (hss : ss.Perm m.program.seqs) :
    ∃ c', parse { libs with readLines := LineProgram.read ⟨ss⟩ } m.b = .ok c' ∧ c'.lineErr = none := by
  obtain ⟨⟨r, hr⟩, _, hrows⟩ := of_parse hc hlines
  obtain ⟨rows', hrows'⟩ : ∃ rows', fileRows m.a.size m.windows (LineProgram.entries m.value ⟨ss⟩) = .ok rows' := by
    refine exists_fileRows fun ent hent => ?_
    obtain ⟨r, _, hr⟩ := exists_fileRow hrows ((hss.flatMap_right _).mem_iff.mp hent)
    exact ⟨r, hr⟩
  exact @exists_parse _ (m.reordered ss hss) _ hr _ hrows'

/-! ## Attribution -/

/-- Rows are filed under functions that their sequence is bound to; a position of a function is given the location
of a row that covers it, if there is one; and the order of the sequences does not matter. -/
structure Attributed (m : Laid libs) (c : Cubin) : Prop where
  filed : ∃ filed : List (List (Name × Row)), c.rows = filed.flatten ∧
    List.Forall₂ (fun s rs => fileRows m.a.size m.windows (s.entries m.value) = .ok rs ∧
      ∀ r ∈ rs, r.1 ∈ m.boundTo s) m.program.seqs filed
  resolved : ∀ fn sz, c.size.find? fn = some sz → ∀ pc < sz,
    (∃ s ∈ m.program.seqs, fn ∈ m.boundTo s ∧ ∃ r, m.Covers s fn pc r ∧ c.resolve fn pc = some (r.file, r.line)) ∨
      (∀ s ∈ m.program.seqs, fn ∈ m.boundTo s → ∀ r, ¬m.Covers s fn pc r) ∧ c.resolve fn pc = none
  inAnyOrder : ∀ (libs' : Libraries) (m' : Laid libs') (ρ : Nat → Nat) (c' : Cubin), m'.Reorders m ρ →
    parse libs' m'.b = .ok c' → c'.lineErr = none →
      ∀ fn sz, c.size.find? fn = some sz → ∀ pc < sz, c'.resolve fn pc = c.resolve fn pc

/-- Every entry is in a window of a function that its sequence is bound to, and where a sequence has a row of a
function the others agree. -/
structure Separate (m : Laid libs) : Prop where
  inside : ∀ s ∈ m.program.seqs, ∀ ent ∈ s.entries m.value, ∀ r, placeOf m.targets ent = some r → r.1 ∈ m.boundTo s
  agree : ∀ fn sz, m.a.size.find? fn = some sz → ∀ x < sz.toNat,
    AgreeAt Row.live Row.location Row.offset (m.rowsUnder fn) m.program.seqs x

theorem rowsUnder_eq_nil {s : LineSeq}
    (h : ∀ ent ∈ s.entries m.value, ∀ r, placeOf m.targets ent = some r → r.1 ∈ m.boundTo s) (hfn : fn ∉ m.boundTo s) :
    m.rowsUnder fn s = [] := by
  unfold rowsUnder rowsOf
  rw [map_eq_nil_iff, filter_eq_nil_iff]
  intro r hr
  obtain ⟨ent, hent, hplace⟩ := mem_filterMap.mp hr
  have hbound := h ent hent r hplace
  simp only [decide_eq_true_eq]
  rintro rfl
  exact hfn hbound

section Attributed

variable {c : Cubin}

theorem filed_iff (hc : parse libs m.b = .ok c) (hlines : c.lineErr = none) :
    (∃ filed : List (List (Name × Row)), c.rows = filed.flatten ∧
      List.Forall₂ (fun s rs => fileRows m.a.size m.windows (s.entries m.value) = .ok rs ∧
        ∀ r ∈ rs, r.1 ∈ m.boundTo s) m.program.seqs filed) ↔
      ∀ s ∈ m.program.seqs, ∀ ent ∈ s.entries m.value, ∀ r, placeOf m.targets ent = some r → r.1 ∈ m.boundTo s := by
  have hrows := (of_parse hc hlines).2.2
  rw [fileRows_eq_ok hrows]
  have haccepted : ∀ s ∈ m.program.seqs, ∃ rs, fileRows m.a.size m.windows (s.entries m.value) = .ok rs :=
    fun s hs => exists_fileRows fun ent hent => by
      obtain ⟨r, _, hr⟩ := exists_fileRow hrows (mem_flatMap.mpr ⟨s, hs, hent⟩)
      exact ⟨r, hr⟩
  unfold LineProgram.entries
  generalize m.program.seqs = seqs at haccepted ⊢
  induction seqs with
  | nil => exact iff_of_true ⟨[], rfl, .nil⟩ nofun
  | cons s ss ih =>
    obtain ⟨rs, hrs⟩ := haccepted s mem_cons_self
    have hplaced := fileRows_eq_ok hrs
    have hhead : (∀ r ∈ rs, r.1 ∈ m.boundTo s) ↔
        ∀ ent ∈ s.entries m.value, ∀ r, placeOf m.targets ent = some r → r.1 ∈ m.boundTo s := by
      rw [hplaced]
      simp only [mem_filterMap]
      exact ⟨fun h ent hent r hr => h r ⟨ent, hent, hr⟩, fun h r ⟨ent, hent, hr⟩ => h ent hent r hr⟩
    have htail := ih fun s' hs' => haccepted s' (mem_cons_of_mem _ hs')
    rw [forall_mem_cons, ← hhead, flatMap_cons, filterMap_append, ← hplaced]
    refine Iff.trans ?_ (and_congr_right' htail)
    constructor
    · rintro ⟨_, hflat, _ | ⟨⟨hrs', hbound⟩, hrest⟩⟩
      obtain rfl : rs = _ := Outcome.ok.inj (hrs.symm.trans hrs')
      rw [flatten_cons] at hflat
      exact ⟨hbound, _, append_cancel_left hflat, hrest⟩
    · rintro ⟨hbound, filed, hflat, hrest⟩
      refine ⟨rs :: filed, ?_, .cons ⟨hrs, hbound⟩ hrest⟩
      rw [flatten_cons, hflat]

theorem resolve_iff_answersAsParts
    (hinside : ∀ s ∈ m.program.seqs, ∀ ent ∈ s.entries m.value, ∀ r, placeOf m.targets ent = some r → r.1 ∈ m.boundTo s)
    (hc : parse libs m.b = .ok c) (hlines : c.lineErr = none) {sz pc : UInt64} (hsz : m.a.size.find? fn = some sz)
    (hpc : pc < sz) :
    ((∃ s ∈ m.program.seqs, fn ∈ m.boundTo s ∧ ∃ r, m.Covers s fn pc r ∧ c.resolve fn pc = some (r.file, r.line)) ∨
      (∀ s ∈ m.program.seqs, fn ∈ m.boundTo s → ∀ r, ¬m.Covers s fn pc r) ∧ c.resolve fn pc = none) ↔
      AnswersAsParts Row.live Row.location Row.offset (m.rowsUnder fn) m.program.seqs pc.toNat := by
  have hunbound : ∀ s ∈ m.program.seqs, fn ∉ m.boundTo s → ∀ r, ¬m.Covers s fn pc r := fun s hs hfn r hcovers => by
    have hlatest := hcovers.1
    rw [rowsUnder_eq_nil (hinside s hs) hfn] at hlatest
    cases hlatest
  unfold AnswersAsParts
  rw [resolve_eq hc hlines hsz hpc]
  refine or_congr ⟨?_, ?_⟩ (and_congr_left fun _ => ⟨?_, ?_⟩)
  · rintro ⟨s, hs, _, r, hcovers, heq⟩
    exact ⟨s, hs, _, covers_iff.mpr ⟨r, hcovers, rfl⟩, heq⟩
  · rintro ⟨s, hs, v, hv, heq⟩
    obtain ⟨r, hcovers, rfl⟩ := covers_iff.mp hv
    exact ⟨s, hs, by_contra fun hfn => hunbound s hs hfn r hcovers, r, hcovers, heq⟩
  · intro hnone s hs
    refine Option.eq_none_iff_forall_ne_some.mpr fun v hv => ?_
    obtain ⟨r, hcovers, _⟩ := covers_iff.mp hv
    exact hnone s hs (by_contra fun hfn => hunbound s hs hfn r hcovers) r hcovers
  · intro hnone s hs _ r hcovers
    have hanswer := covers_iff.mpr ⟨r, hcovers, rfl⟩
    rw [hnone s hs] at hanswer
    cases hanswer

theorem inAnyOrder_iff (hc : parse libs m.b = .ok c) (hlines : c.lineErr = none) :
    (∀ (libs' : Libraries) (m' : Laid libs') (ρ : Nat → Nat) (c' : Cubin), m'.Reorders m ρ →
      parse libs' m'.b = .ok c' → c'.lineErr = none →
        ∀ fn sz, c.size.find? fn = some sz → ∀ pc < sz, c'.resolve fn pc = c.resolve fn pc) ↔
      ∀ fn sz, m.a.size.find? fn = some sz → ∀ x < sz.toNat, ∀ ss : List LineSeq, ss.Perm m.program.seqs →
        answerAt Row.live Row.location Row.offset x (ss.flatMap (m.rowsUnder fn)) =
          answerAt Row.live Row.location Row.offset x (m.program.seqs.flatMap (m.rowsUnder fn)) := by
  have hsize := (of_parse hc hlines).2.1
  have hresolve : ∀ {libs' : Libraries} {m' : Laid libs'} {ρ : Nat → Nat} {c' : Cubin} {ss : List LineSeq},
      m'.Reorders m ρ → ss.Perm m.program.seqs → m'.program.seqs = ss.map (LineSeq.rename ρ) →
        parse libs' m'.b = .ok c' → c'.lineErr = none → ∀ {fn sz pc}, m.a.size.find? fn = some sz → pc < sz →
          c'.resolve fn pc = answerAt Row.live Row.location Row.offset pc.toNat (ss.flatMap (m.rowsUnder fn)) := by
    intro libs' m' ρ c' ss h hss hseqs hc' hlines' fn sz pc hsz hpc
    have hflat : m'.program.seqs.flatMap (m'.rowsUnder fn) = ss.flatMap (m.rowsUnder fn) := by
      rw [hseqs, flatMap_map]
      exact flatMap_congr fun s hs => h.rowsUnder_rename fn (hss.mem_iff.mp hs)
    rw [resolve_eq hc' hlines' (h.size.symm ▸ hsz) hpc, hflat]
  rw [hsize]
  constructor
  · intro h fn sz hsz x hx ss hss
    have hpc : (UInt64.ofNat x).toNat = x := UInt64.toNat_ofNat_of_lt' (hx.trans sz.toNat_lt)
    have hlt : UInt64.ofNat x < sz := UInt64.lt_iff_toNat_lt.mpr (hpc.symm ▸ hx)
    obtain ⟨c', hc', hlines'⟩ := exists_parse_reordered hc hlines ss hss
    have hreorders := m.reorders_reordered ss hss
    have hsame := h _ _ id c' hreorders hc' hlines' fn sz hsz _ hlt
    have hseqs : (m.reordered ss hss).program.seqs = ss.map (LineSeq.rename id) := by
      rw [map_congr_left fun s _ => s.rename_id, map_id']
      rfl
    rw [hresolve hreorders hss hseqs hc' hlines' hsz hlt, resolve_eq hc hlines hsz hlt, hpc] at hsame
    exact hsame
  · intro h libs' m' ρ c' hreorders hc' hlines' fn sz hsz pc hpc
    obtain ⟨ss, hss, hseqs⟩ := hreorders.seqs
    rw [hresolve hreorders hss hseqs hc' hlines' hsz hpc, resolve_eq hc hlines hsz hpc]
    exact h fn sz hsz pc.toNat (UInt64.lt_iff_toNat_lt.mp hpc) ss hss

theorem Attributed.separate (hc : parse libs m.b = .ok c) (hlines : c.lineErr = none) (h : m.Attributed c) :
    m.Separate := by
  have hinside := (filed_iff hc hlines).mp h.filed
  have hsize := (of_parse hc hlines).2.1
  refine ⟨hinside, fun fn sz hsz => ?_⟩
  have hlower : IsLowerSet {x | x < sz.toNat} := fun x y hyx hx => lt_of_le_of_lt hyx hx
  refine (answers_iff_agree hlower).mp fun x hx =>
    ⟨?_, (inAnyOrder_iff hc hlines).mp h.inAnyOrder fn sz hsz x hx⟩
  have hpc : (UInt64.ofNat x).toNat = x := UInt64.toNat_ofNat_of_lt' (lt_trans hx sz.toNat_lt)
  have hlt : UInt64.ofNat x < sz := UInt64.lt_iff_toNat_lt.mpr (hpc.symm ▸ hx)
  have hparts := (resolve_iff_answersAsParts hinside hc hlines hsz hlt).mp (h.resolved fn sz (hsize.symm ▸ hsz) _ hlt)
  rwa [hpc] at hparts

theorem Separate.attributed (hc : parse libs m.b = .ok c) (hlines : c.lineErr = none) (h : m.Separate) :
    m.Attributed c := by
  have hsize := (of_parse hc hlines).2.1
  have hlower : ∀ sz : UInt64, IsLowerSet {x | x < sz.toNat} := fun sz x y hyx hx => lt_of_le_of_lt hyx hx
  have hanswers := fun fn sz hsz => (answers_iff_agree (hlower sz)).mpr (h.agree fn sz hsz)
  refine ⟨(filed_iff hc hlines).mpr h.inside, fun fn sz hsz pc hpc => ?_, (inAnyOrder_iff hc hlines).mpr
    fun fn sz hsz x hx => (hanswers fn sz hsz x hx).2⟩
  rw [hsize] at hsz
  exact (resolve_iff_answersAsParts h.inside hc hlines hsz hpc).mpr
    (hanswers fn sz hsz pc.toNat (UInt64.lt_iff_toNat_lt.mp hpc)).1

/-- For a table that was accepted, the lines are attributed soundly and completely in every order if and only if the
sequences are separate. -/
theorem attributed_iff (m : Laid libs) {c : Cubin} (hc : parse libs m.b = .ok c) (hlines : c.lineErr = none) :
    m.Attributed c ↔ m.Separate :=
  ⟨Attributed.separate hc hlines, Separate.attributed hc hlines⟩

end Attributed

end Laid

/-! ## A sequence that ends where one before it in the section starts -/

/-- One function of two sequences, the one of its second half first in the section. -/
def lateFirstProgram : LineProgram where
  seqs :=
    [{ ops := [.setAddress 37, .advance 16, .row (some (ascii "k.cu")) 2, .advance 16]
       last := some (some (ascii "k.cu"), 2) },
      { ops := [.setAddress 58, .row (some (ascii "k.cu")) 1, .advance 16], last := some (some (ascii "k.cu"), 1) }]

def lateFirstLine : List UInt8 :=
  -- the header of the unit, with one file
  [0x44, 0, 0, 0, 2, 0, 0x18, 0, 0, 0, 1, 1, 0xfb, 0x0e, 0x0a, 0, 1, 1, 1, 1, 0, 0, 0, 1] ++
    [0] ++ ascii "k.cu" ++ [0, 0, 0, 0, 0] ++
    -- the second half of the function
    [0, 9, 2, 0, 0, 0, 0, 0, 0, 0, 0] ++ [2, 16] ++ [3, 1] ++ [1] ++ [2, 16] ++ [0, 1, 1] ++
    -- the first half
    [0, 9, 2, 0, 0, 0, 0, 0, 0, 0, 0] ++ [1] ++ [2, 16] ++ [0, 1, 1]

def lateFirstRel : List UInt8 :=
  leBytes 8 37 ++ leBytes 8 (2 ^ 32) ++ leBytes 8 58 ++ leBytes 8 (2 ^ 32)

theorem lateFirstLine_short : lateFirstLine.length < 2 ^ 63 := by decide

theorem lateFirstRel_short : lateFirstRel.length < 2 ^ 63 := by decide

def lateFirstFile : File where
  machine := emCUDA
  elfClass := elfClass64
  encoding := elfData2LSB
  symbols := some [{ name := ascii "k", info := sttFunc, size := 32 }]
  sections :=
    [{ name := ascii ".debug_line", type := 1, fileSize := 72, data := some ⟨lateFirstLine, lateFirstLine_short⟩ },
      { name := ascii ".rel.debug_line", type := shtRel, offset := 72, fileSize := 32
        data := some ⟨lateFirstRel, lateFirstRel_short⟩ }]

def lateFirstLibs : Libraries where
  newFile _ := some lateFirstFile
  readLines := lateFirstProgram.read

def lateFirst : Laid lateFirstLibs where
  b := lateFirstLine ++ lateFirstRel
  f := lateFirstFile
  a :=
    { funcs := [{ name := ascii "k", symIndex := 1, sectionName := ascii ".debug_line", size := 32 }]
      funcBySym := AssocMap.put ∅ 1 (ascii "k"), size := AssocMap.put ∅ (ascii "k") 32 }
  line := lateFirstLine
  rels := [(37, 2 ^ 32), (58, 2 ^ 32)]
  program := lateFirstProgram
  reaches := ⟨rfl, rfl, ⟨rfl, rfl⟩, ⟨_, rfl, rfl⟩, rfl, by decide⟩
  accepted := rfl
  encodes := ⟨by decide, fun _ _ _ => rfl⟩
  binds := by decide

theorem exists_parse_lateFirst : ∃ c, parse lateFirstLibs lateFirst.b = .ok c ∧ c.lineErr = none :=
  @Laid.exists_parse _ lateFirst (_, _) rfl _ rfl

/-- The row of the second half covers its start, where the table has the end of the first half last. -/
theorem covers_lateFirst : ∃ s ∈ lateFirst.program.seqs, ascii "k" ∈ lateFirst.boundTo s ∧
      lateFirst.Covers s (ascii "k") 16 { pcOffset := 16, line := 2, file := ascii "k.cu", endSequence := false } :=
  ⟨_, mem_cons_self, by decide, by decide, rfl⟩

theorem attributed_iff_lateFirst : ∃ c, parse lateFirstLibs lateFirst.b = .ok c ∧ c.lineErr = none ∧
      (lateFirst.Attributed c ↔ lateFirst.Separate) := by
  obtain ⟨c, hc, hlines⟩ := exists_parse_lateFirst
  exact ⟨c, hc, hlines, lateFirst.attributed_iff hc hlines⟩

/-- The position is not found, though a row covers it. -/
theorem not_attributed_lateFirst :
    ∃ c, parse lateFirstLibs lateFirst.b = .ok c ∧ c.lineErr = none ∧ c.resolve (ascii "k") 16 = none ∧
      ¬lateFirst.Attributed c := by
  obtain ⟨c, hc, hlines⟩ := exists_parse_lateFirst
  have hsize := (Laid.of_parse hc hlines).2.1
  have hsz : lateFirst.a.size.find? (ascii "k") = some 32 := by decide
  have hlt : (16 : UInt64) < 32 := by decide
  have hnone : c.resolve (ascii "k") 16 = none := by
    rw [Laid.resolve_eq hc hlines hsz hlt]
    decide
  refine ⟨c, hc, hlines, hnone, fun h => ?_⟩
  rcases h.resolved (ascii "k") 32 (hsize ▸ hsz) 16 hlt with ⟨_, _, _, _, _, hsome⟩ | ⟨huncovered, _⟩
  · rw [hnone] at hsome
    cases hsome
  · obtain ⟨s, hs, hbound, hcovers⟩ := covers_lateFirst
    exact huncovered s hs hbound _ hcovers

end PerfAgent.CubinFile
