import PerfAgent.Unwind.RowMeaning
import PerfAgent.Unwind.Survival

/-!
# What an FDE emits

`Compile` runs the interpreter over the instructions of the CIE and then over those of the FDE.
Here both programs are one run, of the instructions that the loop comes to and of the two ends,
and every change of the rows is an emission up to an address.  A section is then the list of its
FDEs with their rows.
-/

namespace PerfAgent.Unwind

open List Option Outcome

/-! ## One emission -/

namespace Interp

/-- Emission up to `newPC` changes the rows. -/
def Emits (s : Interp) (newPC : UInt64) : Prop :=
  s.lastEmittedPC < newPC ∧ s.rules.cfaType ≠ .undefined ∧ s.rules.cfaRule ≠ .expression

instance (s : Interp) (newPC : UInt64) : Decidable (s.Emits newPC) := inferInstanceAs (Decidable (_ ∧ _ ∧ _))

def openRow (s : Interp) : Option CFIEntry := if s.rules = s.lastState then s.emitted.head? else none

def closedRows (s : Interp) : List CFIEntry := if s.openRow.isSome then s.emitted.tail else s.emitted

def newRow (s : Interp) (newPC : UInt64) : CFIEntry where
  pcStart := s.lastEmittedPC
  pcEndDelta := (newPC - s.lastEmittedPC).toUInt32
  cfaType := s.rules.cfaType
  fpType := fpRuleToType s.rules.fpRule
  cfaOffset := s.rules.cfaOffset.toInt32
  fpOffset := s.rules.fpRule.offset.toInt32
  raOffset := s.rules.raRule.offset.toInt32
  raType := raRuleToType s.rules.raRule

def grownRow (s : Interp) (newPC : UInt64) : CFIEntry :=
  match s.openRow with
  | some e => { e with pcEndDelta := e.pcEndDelta + (newPC - s.lastEmittedPC).toUInt32 }
  | none => s.newRow newPC

theorem openRow_eq_some {s : Interp} {e : CFIEntry} :
    s.openRow = some e ↔ s.rules = s.lastState ∧ s.emitted.head? = some e := by
  rw [openRow, ite_none_right_eq_some]

theorem emitted_of_openRow {s : Interp} {e : CFIEntry} (h : s.openRow = some e) : s.emitted = e :: s.closedRows := by
  have hclosed : s.closedRows = s.emitted.tail := if_pos (isSome_of_eq_some h)
  rw [hclosed]
  exact (cons_head?_tail (openRow_eq_some.mp h).2).symm

theorem emitted_of_openRow_none {s : Interp} (h : s.openRow = none) : s.emitted = s.closedRows := by
  rw [closedRows, if_neg]
  rw [h]
  exact Bool.false_ne_true

theorem snapshot_emitted (s : Interp) (newPC : UInt64) :
    (s.snapshot newPC).emitted = if s.Emits newPC then s.grownRow newPC :: s.closedRows else s.emitted := by
  unfold snapshot
  split
  · next hle =>
    rw [if_neg]
    exact fun h => absurd hle (UInt64.not_le.mpr h.1)
  · next hlt =>
    split
    · next hundef =>
      rw [if_neg]
      exact fun h => h.2.1 hundef.1
    · next hdef =>
      split
      · next hmark =>
        rw [if_neg]
        exact fun h => h.2.2 hmark
      · next hmark =>
        have htype : s.rules.cfaType ≠ .undefined := fun heq => hdef ⟨heq, hmark⟩
        rw [if_pos ⟨UInt64.not_le.mp hlt, htype, hmark⟩]
        dsimp only
        split
        · next hnil =>
          have hopen : s.openRow = none := by
            rw [openRow, hnil]
            split <;> rfl
          rw [grownRow, hopen, ← emitted_of_openRow_none hopen, hnil]
          rfl
        · next e es hcons =>
          split
          · next hsame =>
            have hopen : s.openRow = some e := openRow_eq_some.mpr ⟨hsame, by rw [hcons]; rfl⟩
            have hemitted := emitted_of_openRow hopen
            rw [hcons] at hemitted
            rw [grownRow, hopen, (List.cons.inj hemitted).2]
          · next hother =>
            have hopen : s.openRow = none := if_neg hother
            rw [grownRow, hopen, ← emitted_of_openRow_none hopen, hcons]
            rfl

theorem snapshot_lastState (s : Interp) (newPC : UInt64) : s.Emits newPC ∧ (s.snapshot newPC).lastState = s.rules ∨
      ¬s.Emits newPC ∧
        ((s.snapshot newPC).lastState = s.lastState ∨ (s.snapshot newPC).lastState.cfaRule = .expression) := by
  unfold snapshot
  split
  · next hle =>
    exact .inr ⟨fun h => absurd hle (UInt64.not_le.mpr h.1), .inl rfl⟩
  · next hlt =>
    split
    · next hundef =>
      exact .inr ⟨fun h => h.2.1 hundef.1, .inl rfl⟩
    · next hdef =>
      split
      · next hmark =>
        exact .inr ⟨fun h => h.2.2 hmark, .inr hmark⟩
      · next hmark =>
        have htype : s.rules.cfaType ≠ .undefined := fun heq => hdef ⟨heq, hmark⟩
        refine .inl ⟨⟨UInt64.not_le.mp hlt, htype, hmark⟩, ?_⟩
        dsimp only
        split
        · rfl
        · split
          · next hsame => exact hsame.symm
          · rfl

theorem snapshot_lastEmittedPC_eq (s : Interp) (newPC : UInt64) :
    (s.snapshot newPC).lastEmittedPC = if s.lastEmittedPC < newPC then newPC else s.lastEmittedPC := by
  split
  · next hlt => exact snapshot_lastEmittedPC (UInt64.le_of_lt hlt)
  · next hle =>
    rw [snapshot, if_pos (UInt64.not_lt.mp hle)]

end Interp

/-! ## The run of an FDE -/

def Instr.target (s : Interp) : Instr → Option UInt64
  | .advanceLoc factor => some (s.pc + factor * s.cie.codeAlign)
  | .setLoc newPC _ => some newPC
  | _ => none

/-- An instruction emits, if it moves, and changes neither the rows nor how far they go besides. -/
theorem exec_frame {s s' : Interp} {i : Instr} (h : exec s i = .ok s') : ∃ pc rules stack,
      s' = { (i.target s).elim s s.snapshot with pc := pc, rules := rules, stack := stack } := by
  cases i with
  | advanceLoc factor =>
    cases h
    exact ⟨_, _, _, snapshotAndAdvance_eq s _⟩
  | setLoc newPC operand =>
    rw [exec] at h
    split at h
    · cases h
    · cases h
      have hpc : s.pc + (newPC - s.pc) = newPC := add_sub_cancel s.pc newPC
      rw [snapshotAndAdvance_eq, hpc]
      exact ⟨_, _, _, rfl⟩
  | offset reg factor =>
    cases h
    exact ⟨_, _, _, setRegRule_frame s _ _⟩
  | offsetExtendedSF reg factor =>
    cases h
    exact ⟨_, _, _, setRegRule_frame s _ _⟩
  | undefined reg =>
    cases h
    exact ⟨_, _, _, setRegRule_frame s _ _⟩
  | sameValue reg =>
    cases h
    exact ⟨_, _, _, setRegRule_frame s _ _⟩
  | register reg other =>
    cases h
    exact ⟨_, _, _, setRegRule_frame s _ _⟩
  | restore reg =>
    cases h
    exact ⟨_, _, _, restoreRegInitial_frame s _⟩
  | rememberState =>
    rw [exec] at h
    split at h
    · cases h
    · cases h
      exact ⟨_, _, _, rfl⟩
  | restoreState =>
    rw [exec] at h
    split at h
    · cases h
    · cases h
      exact ⟨_, _, _, rfl⟩
  | _ =>
    cases h
    exact ⟨_, _, _, rfl⟩

/-- What `Compile` has the interpreter do for an FDE. -/
inductive FDE.Action where
  | /-- The instruction that stands at a position. -/ carryOut (pos : Int) (i : Instr)
  | /-- The end of the CIE's program, and what comes before the FDE's. -/ endCIE
  | endFDE
deriving DecidableEq

namespace FDE

def endPC (f : FDE) : UInt64 := f.initialLocation + f.addressRange

def next (f : FDE) (s : Interp) : Action → Option Interp
  | .carryOut _ i => (exec s i).toOption
  | .endCIE => some ((f.between (s.snapshot f.initialLocation)).begin f.initialLocation)
  | .endFDE => some (s.snapshot f.endPC)

def target (f : FDE) (s : Interp) : Action → Option UInt64
  | .carryOut _ i => i.target s
  | .endCIE => some f.initialLocation
  | .endFDE => some f.endPC

theorem next_frame {f : FDE} {s s' : Interp} {a : Action} (h : f.next s a = some s') :
    s'.emitted = ((f.target s a).elim s s.snapshot).emitted ∧
      s'.lastState = ((f.target s a).elim s s.snapshot).lastState ∧ s'.lastEmittedPC =
          if a = .endCIE then f.initialLocation else ((f.target s a).elim s s.snapshot).lastEmittedPC := by
  cases a with
  | carryOut pos i =>
    obtain ⟨pc, rules, stack, rfl⟩ := exec_frame (toOption_eq_some.mp h)
    exact ⟨rfl, rfl, rfl⟩
  | endCIE =>
    cases h
    exact ⟨rfl, rfl, rfl⟩
  | endFDE =>
    cases h
    exact ⟨rfl, rfl, rfl⟩

def opening (f : FDE) (arch : ArchInfo) : Interp := (newInterpreter f.cie arch).begin f.initialLocation

end FDE

def carriedOut (program : Slice UInt8) : Nat → Int → Interp → List FDE.Action
  | 0, _, _ => []
  | fuel + 1, pos, s =>
    if pos < program.len then
      match fetch s.cie.fdePointerEnc program pos with
      | .ok (i, pos') =>
        .carryOut pos i ::
          match exec s i with
          | .ok s' => carriedOut program fuel (afterBlock i pos') s'
          | _ => []
      | _ => []
    else []

theorem loop_carriedOut (f : FDE) {program : Slice UInt8} {fuel : Nat} {pos : Int} {s s' : Interp}
    (h : loop program fuel pos s = .ok s') : (carriedOut program fuel pos s).foldlM f.next s = some s' := by
  induction fuel generalizing pos s with
  | zero =>
    rw [loop] at h
    split at h
    · cases h
    · cases h
      rfl
  | succ fuel ih =>
    rw [loop] at h
    rw [carriedOut]
    split at h
    · next hlt =>
      obtain ⟨⟨i, pos'⟩, hfetch, hrest⟩ := bind_eq_ok.mp h
      obtain ⟨s₁, hexec, hloop⟩ := bind_eq_ok.mp hrest
      rw [if_pos hlt, hfetch]
      dsimp only
      rw [hexec, foldlM_cons]
      exact bind_eq_some_iff.mpr ⟨s₁, toOption_eq_some.mpr hexec, ih hloop⟩
    · next hend =>
      cases h
      rw [if_neg hend]
      rfl

namespace FDE

/-- What `Compile` has the interpreter do for an FDE, from first to last. -/
def actions (fuel : Nat) (arch : ArchInfo) (f : FDE) : List Action :=
  carriedOut f.cie.initialInstructions fuel 0 (f.opening arch) ++ .endCIE ::
      match loop f.cie.initialInstructions fuel 0 (f.opening arch) with
      | .ok s =>
        carriedOut f.instructions fuel 0
          ((f.between (s.snapshot f.initialLocation)).begin f.initialLocation) ++ [.endFDE]
      | _ => []

variable {arch : ArchInfo}

theorem rows_of_run {fuel : Nat} {f : FDE} {rows : List CFIEntry} (h : compileFDE fuel arch f = .ok rows) :
    ∃ s, Run (fun s a s' => f.next s a = some s') (f.opening arch) (f.actions fuel arch) s ∧ s.entries = rows := by
  obtain ⟨s, hs, heq⟩ := bind_eq_ok.mp h
  cases heq
  obtain ⟨s₁, hcie, hfde⟩ := bind_eq_ok.mp hs
  obtain ⟨s₀, hloop₀, heq₀⟩ := bind_eq_ok.mp (mapError_eq_ok.mp hcie)
  obtain ⟨s₂, hloop₂, heq₂⟩ := bind_eq_ok.mp (mapError_eq_ok.mp hfde)
  cases heq₀
  cases heq₂
  refine ⟨_, run_iff_foldlM.mpr ?_, rfl⟩
  have hfirst : loop f.cie.initialInstructions fuel 0 (f.opening arch) = .ok s₀ := hloop₀
  rw [actions, hfirst, foldlM_append]
  refine bind_eq_some_iff.mpr ⟨s₀, loop_carriedOut f hfirst, ?_⟩
  rw [foldlM_cons]
  refine bind_eq_some_iff.mpr ⟨_, rfl, ?_⟩
  rw [foldlM_append]
  exact bind_eq_some_iff.mpr ⟨s₂, loop_carriedOut f hloop₂, rfl⟩

/-- Every action meets `P` in the state before it. -/
def Meets (P : Interp → Action → Prop) (fuel : Nat) (arch : ArchInfo) (f : FDE) : Prop :=
  ∃ s, Run (fun s a s' => P s a ∧ f.next s a = some s') (f.opening arch) (f.actions fuel arch) s

instance (P : Interp → Action → Prop) [∀ s a, Decidable (P s a)] (fuel : Nat) (arch : ArchInfo) (f : FDE) :
    Decidable (f.Meets P fuel arch) :=
  decidable_of_iff
    (((f.actions fuel arch).foldlM (fun s a => if P s a then f.next s a else none) (f.opening arch)).isSome) <| by
      rw [isSome_iff_exists]
      exact exists_congr fun s => (guarded_run_iff_foldlM f.next P).symm

theorem Meets.rows {P : Interp → Action → Prop} {fuel : Nat} {f : FDE} (h : f.Meets P fuel arch) {rows : List CFIEntry}
    (hrows : compileFDE fuel arch f = .ok rows) :
    ∃ s, Run (fun s a s' => P s a ∧ f.next s a = some s') (f.opening arch) (f.actions fuel arch) s ∧
      s.entries = rows := by
  obtain ⟨s, hs⟩ := h
  obtain ⟨s', hs', heq⟩ := rows_of_run hrows
  obtain rfl : s = s' := Run.unique (hs.mono fun _ _ _ h => h.2) hs'
  exact ⟨s, hs, heq⟩

end FDE

/-! ## The FDEs of a section -/

structure Compiled where
  fde : FDE
  cieOff : UInt64
  rows : List CFIEntry
deriving DecidableEq

section Section

variable (fuel : Nat) (data : Slice UInt8) (sectionPos : UInt64) (arch : ArchInfo)

def Walk.compiled (w : Walk) : Option Compiled := do
  let pos := UInt64.ofNat w.pos
  let length ← (uint32At data w.pos).toOption
  let secondWord ← (uint32At data (w.pos + 4)).toOption
  let raw ← (data.sub w.pos (w.pos + 4 + length : Nat) : Go _).toOption
  if secondWord = 0 then none
  else
    let cieOff := pos + 4 - UInt64.ofNat secondWord
    let c ← w.cies.lookup cieOff
    let f ← (parseFDE raw (sectionPos + pos) c).toOption
    let rows ← (compileFDE fuel arch f).toOption
    return { fde := f, cieOff := cieOff, rows := rows }

/-- The FDEs that the walk comes to in at most `n` turns. -/
def compiledFrom : Nat → Walk → List Compiled
  | 0, _ => []
  | n + 1, w =>
    match walkStep fuel data sectionPos arch w with
    | .ok (some w') => (w.compiled fuel data sectionPos arch).toList ++ compiledFrom n w'
    | _ => []

/-- The FDEs of the section, in the order in which they stand there. -/
def compiledSection : List Compiled := compiledFrom fuel data sectionPos arch fuel {}

variable {fuel data sectionPos arch}

theorem Walk.compiled_eq_some {w : Walk} {p : Compiled} : w.compiled fuel data sectionPos arch = some p ↔
      ∃ length word raw c, uint32At data w.pos = .ok length ∧ uint32At data (w.pos + 4) = .ok word ∧
        data.sub w.pos (w.pos + 4 + length : Nat) = (.ok raw : Go _) ∧ word ≠ 0 ∧
          p.cieOff = UInt64.ofNat w.pos + 4 - UInt64.ofNat word ∧ w.cies.lookup p.cieOff = some c ∧
            parseFDE raw (sectionPos + UInt64.ofNat w.pos) c = .ok p.fde ∧ compileFDE fuel arch p.fde = .ok p.rows := by
  unfold Walk.compiled
  constructor
  · intro h
    obtain ⟨length, hlength, h⟩ := bind_eq_some_iff.mp h
    obtain ⟨word, hword, h⟩ := bind_eq_some_iff.mp h
    obtain ⟨raw, hraw, h⟩ := bind_eq_some_iff.mp h
    obtain ⟨hne, h⟩ := ite_none_left_eq_some.mp h
    obtain ⟨c, hc, h⟩ := bind_eq_some_iff.mp h
    obtain ⟨f, hf, h⟩ := bind_eq_some_iff.mp h
    obtain ⟨rows, hrows, heq⟩ := bind_eq_some_iff.mp h
    cases heq
    rw [toOption_eq_some] at hlength hword hraw hf hrows
    exact ⟨length, word, raw, c, hlength, hword, hraw, hne, rfl, hc, hf, hrows⟩
  · rintro ⟨length, word, raw, c, hlength, hword, hraw, hne, hoff, hc, hf, hrows⟩
    rw [← toOption_eq_some] at hlength hword hraw hf hrows
    refine bind_eq_some_iff.mpr ⟨length, hlength, ?_⟩
    refine bind_eq_some_iff.mpr ⟨word, hword, ?_⟩
    refine bind_eq_some_iff.mpr ⟨raw, hraw, ?_⟩
    refine ite_none_left_eq_some.mpr ⟨hne, ?_⟩
    rw [hoff] at hc
    refine bind_eq_some_iff.mpr ⟨c, hc, ?_⟩
    refine bind_eq_some_iff.mpr ⟨p.fde, hf, ?_⟩
    refine bind_eq_some_iff.mpr ⟨p.rows, hrows, ?_⟩
    rw [← hoff]
    rfl

theorem walkStep_allEntries {w w' : Walk} (h : walkStep fuel data sectionPos arch w = .ok (some w')) :
    w'.allEntries = w.allEntries ++ (w.compiled fuel data sectionPos arch).toList.flatMap Compiled.rows := by
  by_cases hrec : ∃ length, RecordAt data w.pos length
  · obtain ⟨length, hrec⟩ := hrec
    rw [walkStep_of_record hrec] at h
    obtain ⟨w₁, hw₁, heq⟩ := bind_eq_ok.mp h
    cases heq
    obtain ⟨word, hword, hrest⟩ := bind_eq_ok.mp hw₁
    obtain ⟨raw, hraw, hrest⟩ := bind_eq_ok.mp hrest
    split at hrest
    · next hzero =>
      -- a CIE
      obtain ⟨c, -, heq⟩ := bind_eq_ok.mp hrest
      cases heq
      have hnone : w.compiled fuel data sectionPos arch = none := by
        rw [eq_none_iff_forall_ne_some]
        intro p hp
        obtain ⟨-, word', -, -, -, hword', -, hne, -⟩ := Walk.compiled_eq_some.mp hp
        obtain rfl : word' = word := Outcome.ok.inj (hword'.symm.trans hword)
        exact hne hzero
      rw [hnone]
      exact (append_nil _).symm
    · next hne =>
      dsimp only at hrest
      split at hrest
      · cases hrest
      · next c hc =>
        obtain ⟨f, hf, hrest⟩ := bind_eq_ok.mp hrest
        obtain ⟨entries, hentries, heq⟩ := bind_eq_ok.mp hrest
        cases heq
        have hsome : w.compiled fuel data sectionPos arch = some
            { fde := f, cieOff := UInt64.ofNat w.pos + 4 - UInt64.ofNat word, rows := entries } :=
          Walk.compiled_eq_some.mpr ⟨length, word, raw, c, hrec.read, hword, hraw, hne, rfl, hc,
            mapError_eq_ok.mp hf, hentries⟩
        rw [hsome]
        exact congrArg _ (append_nil _).symm
  · cases (walkStep_of_none (not_exists.mp hrec)).of_eq h

theorem walkFrom_compiled {n : Nat} {w : Walk} {allEntries : List CFIEntry}
    (h : walkFrom fuel data sectionPos arch n w = .ok allEntries) :
    allEntries = w.allEntries ++ (compiledFrom fuel data sectionPos arch n w).flatMap Compiled.rows := by
  induction n generalizing w with
  | zero => cases h
  | succ n ih =>
    obtain ⟨next, hstep, hrest⟩ := bind_eq_ok.mp h
    rw [compiledFrom, hstep]
    cases next with
    | none =>
      cases hrest
      exact (append_nil _).symm
    | some w' =>
      rw [ih hrest, walkStep_allEntries hstep, flatMap_append, append_assoc]

theorem compileSection_eq {allEntries : List CFIEntry} (h : compileSection fuel data sectionPos arch = .ok allEntries) :
    allEntries = (compiledSection fuel data sectionPos arch).flatMap Compiled.rows := walkFrom_compiled h

theorem exists_walk_of_mem {I : Walk → Prop}
    (hstep : ∀ {w w'}, I w → walkStep fuel data sectionPos arch w = .ok (some w') → I w') {n : Nat} {w : Walk}
    (h₀ : I w) {p : Compiled} (hp : p ∈ compiledFrom fuel data sectionPos arch n w) :
    ∃ w', I w' ∧ w'.compiled fuel data sectionPos arch = some p := by
  induction n generalizing w with
  | zero => cases hp
  | succ n ih =>
    rw [compiledFrom] at hp
    split at hp
    · next w' hw' =>
      obtain hp | hp := mem_append.mp hp
      · exact ⟨w, h₀, mem_toList.mp hp⟩
      · exact ih (hstep h₀ hw') hp
    · cases hp

theorem compileFDE_of_mem {p : Compiled} (h : p ∈ compiledSection fuel data sectionPos arch) :
    compileFDE fuel arch p.fde = .ok p.rows := by
  obtain ⟨w, -, hw⟩ := exists_walk_of_mem (I := fun _ => True) (fun _ _ => trivial) trivial h
  obtain ⟨-, -, -, -, -, -, -, -, -, -, -, hrows⟩ := Walk.compiled_eq_some.mp hw
  exact hrows

end Section

end PerfAgent.Unwind
