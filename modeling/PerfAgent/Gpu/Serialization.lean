import Mathlib.Data.List.Sort
import PerfAgent.Gpu.Types

/-!
# The serialization disclosure

Which executions ran while the profiler was serializing kernels, which provably did
not, and which cannot be said either way (`gpu/serialization.go`).  One `WindowSet`
is one process's burst history; `WindowStore` keeps one per process.

The three answers are characterised by `classify_eq_serialized` and
`classify_eq_notSerialized`, and the one step by `WindowSet.add_cases`.  Everything
proved about the disclosure elsewhere goes through these three.
-/

namespace PerfAgent.Gpu

open Option

/-- The bound of the source's `uint64` timestamps. -/
def maxUint64 : Nat := 2 ^ 64 - 1

/-- `NextStartDeltaMs` meaning that the producer refuses all further bursts. -/
def quietNever : Nat := 0xFFFFFFFF

def defaultMaxSamplingWindowsPerPID : Nat := 4096

def defaultMaxSamplingWindowPIDs : Nat := 256

structure SamplingWindow where
  startNs : Nat
  endNs : Nat
  mode : SamplingMode
  quietMs : Nat
deriving DecidableEq, Inhabited

namespace SamplingWindow

def isOpen (w : SamplingWindow) : Bool := w.endNs == 0

/-- The last instant this window proves nothing further had started, if it proves
anything.  The addition is the source's, modulo 2^64. -/
def provenQuietUntil (w : SamplingWindow) : Option Nat :=
  if w.isOpen || w.quietMs == 0 then none
  else if w.quietMs = quietNever then some maxUint64
  else
    let e := (w.endNs + w.quietMs * 1000000) % 2 ^ 64
    if e < w.endNs then none else some e

def serializes (w : SamplingWindow) : Bool := w.mode == .kernelSerialized

/-- Whether `[startNs, endNs]` overlaps the window; an open window has no end. -/
def intersects (w : SamplingWindow) (startNs endNs : Nat) : Bool :=
  if endNs < w.startNs then false
  else if w.isOpen then true
  else startNs ≤ w.endNs

/-- A closed window of the serialized mode: evidence of serialization. -/
def proves (w : SamplingWindow) : Bool := !w.isOpen && w.serializes

/-- A window that answers neither way: it never closed, or its mode is not known. -/
def ambiguous (w : SamplingWindow) : Bool := w.isOpen || w.mode == .unset

theorem intersects_iff {w : SamplingWindow} {s e : Nat} :
    w.intersects s e = true ↔ w.startNs ≤ e ∧ (w.isOpen = true ∨ s ≤ w.endNs) := by
  unfold intersects
  split
  · simp; omega
  · split
    · simp_all
    · simp_all

/-- A finite promise is read as it is: the sum wraps only when it overflows, and then
no promise is read. -/
theorem provenQuietUntil_eq_some {w : SamplingWindow} (ho : w.isOpen = false)
    (hne : w.quietMs ≠ quietNever) (he : w.endNs < 2 ^ 64) (hq : w.quietMs < 2 ^ 32) {q : Nat} :
    w.provenQuietUntil = some q ↔ w.quietMs ≠ 0 ∧ q = w.endNs + w.quietMs * 1000000 ∧
      w.endNs + w.quietMs * 1000000 < 2 ^ 64 := by
  unfold provenQuietUntil
  rw [ho, Bool.false_or, if_neg hne]
  by_cases h0 : w.quietMs = 0
  · simp [h0]
  · rw [if_neg (by simpa using h0)]
    by_cases hw : w.endNs + w.quietMs * 1000000 < 2 ^ 64
    · rw [Nat.mod_eq_of_lt hw]
      simp only [Nat.not_lt.mpr (Nat.le_add_right _ _), if_false, Option.some.injEq]
      exact ⟨fun h => ⟨h0, h.symm, hw⟩, fun h => h.2.1.symm⟩
    · have hmod : (w.endNs + w.quietMs * 1000000) % 2 ^ 64 =
          w.endNs + w.quietMs * 1000000 - 2 ^ 64 := by
        rw [Nat.mod_eq_sub_mod (by omega), Nat.mod_eq_of_lt (by omega)]
      simp only [hmod]
      rw [if_pos (by omega)]
      exact ⟨(nomatch ·), fun h => absurd h.2.2 hw⟩

theorem intersects_mono {w : SamplingWindow} {s e s' e' : Nat} (hs : s ≤ s') (he : e' ≤ e)
    (h : w.intersects s' e' = true) : w.intersects s e = true := by
  rw [intersects_iff] at h ⊢
  refine ⟨h.1.trans he, h.2.imp_right fun h => hs.trans h⟩

end SamplingWindow

/-- One process's burst history.  `coverageStartNs` is the earliest instant it can
speak for. -/
structure WindowSet where
  wins : List SamplingWindow := []
  coverageStartNs : Nat := 0
  haveCoverage : Bool := false
deriving DecidableEq, Inhabited

namespace WindowSet

/-- Which of two records of one burst is kept: a close supersedes its open record, and
nothing else is replaced. -/
def keep (w nw : SamplingWindow) : SamplingWindow := if w.isOpen && !nw.isOpen then nw else w

/-- Replace the match nearest to the end of the list, given the list backwards. -/
def supersedeBackwards (nw : SamplingWindow) : List SamplingWindow → Option (List SamplingWindow)
  | [] => none
  | w :: ws =>
    if w.startNs ≠ nw.startNs then (supersedeBackwards nw ws).map (w :: ·)
    else some (keep w nw :: ws)

def supersede (nw : SamplingWindow) (wins : List SamplingWindow) : Option (List SamplingWindow) :=
  (supersedeBackwards nw wins.reverse).map List.reverse

/-- Append in start order: sorted only when the new window is older than the tail. -/
def append (nw : SamplingWindow) (wins : List SamplingWindow) : List SamplingWindow :=
  match wins.getLast? with
  | none => [nw]
  | some tail =>
    if tail.startNs > nw.startNs then
      (wins ++ [nw]).insertionSort fun a b => a.startNs ≤ b.startNs
    else wins ++ [nw]

/-- Restart the coverage at a window that follows a hole, or that is the first. -/
def restart (set : WindowSet) (w : GPUSamplingWindow) : WindowSet :=
  if w.lost > 0 ∨ set.haveCoverage = false then
    { set with coverageStartNs := w.startNs, haveCoverage := true }
  else set

/-- Drop the oldest windows past the bound and move the coverage start forward. -/
def evict (maxPerPID : Nat) (set : WindowSet) : WindowSet :=
  if set.wins.length > maxPerPID then
    let wins := set.wins.drop (set.wins.length - maxPerPID)
    { set with
      wins := wins
      coverageStartNs :=
        match wins with
        | [] => set.coverageStartNs
        | w :: _ => if w.startNs > set.coverageStartNs then w.startNs else set.coverageStartNs }
  else set

def ofRecord (w : GPUSamplingWindow) : SamplingWindow :=
  { startNs := w.startNs, endNs := w.endNs, mode := w.mode, quietMs := w.nextStartDeltaMs }

/-- The part of `add` that follows the process lookup.  Returns the history, whether
the record superseded its burst's open record, and how many windows were dropped. -/
def add (maxPerPID : Nat) (set : WindowSet) (w : GPUSamplingWindow) : WindowSet × Bool × Nat :=
  let set := set.restart w
  match supersede (ofRecord w) set.wins with
  | some wins => ({ set with wins := wins }, true, 0)
  | none =>
    let set := { set with wins := append (ofRecord w) set.wins }
    (set.evict maxPerPID, false, set.wins.length - maxPerPID)

/-- The loop of `coverageEndNs`, with the end found so far. -/
def coverageEndFrom (coverageStartNs : Nat) : List SamplingWindow → Option Nat → Option Nat
  | [], acc => acc
  | w :: ws, acc =>
    if w.startNs < coverageStartNs then coverageEndFrom coverageStartNs ws acc
    else if w.isOpen then some w.startNs
    else
      let e := match acc with
        | none => w.endNs
        | some e => if w.endNs > e then w.endNs else e
      let e := match w.provenQuietUntil with
        | none => e
        | some q => if q > e then q else e
      coverageEndFrom coverageStartNs ws (some e)

def coverageEndNs (set : WindowSet) : Option Nat :=
  if set.haveCoverage = false ∨ set.wins = [] then none
  else coverageEndFrom set.coverageStartNs set.wins none

/-- The scan of `classify`: `none` once a burst proves serialization, else whether a
window was met that answers neither way. -/
def scan (startNs endNs : Nat) : List SamplingWindow → Bool → Option Bool
  | [], ambiguousSeen => some ambiguousSeen
  | w :: ws, ambiguousSeen =>
    if !w.intersects startNs endNs then scan startNs endNs ws ambiguousSeen
    else if w.isOpen then scan startNs endNs ws true
    else if w.mode = .unset then scan startNs endNs ws true
    else if w.serializes then none
    else scan startNs endNs ws ambiguousSeen

def classify (set : WindowSet) (startNs endNs : Nat) : SerializationState :=
  if endNs < startNs then .unknown
  else if set.haveCoverage = false then .unknown
  else
    match scan startNs endNs set.wins false with
    | none => .serialized
    | some true => .unknown
    | some false =>
      match set.coverageEndNs with
      | none => .unknown
      | some e =>
        if startNs < set.coverageStartNs ∨ endNs > e then .unknown else .notSerialized

end WindowSet

structure WindowStore where
  byPID : AssocMap Nat WindowSet := ∅
  maxPerPID : Nat
  maxPIDs : Nat
  received : Nat := 0
  superseded : Nat := 0
  evicted : Nat := 0
  refusedPIDs : Nat := 0
  unknownMode : Nat := 0

def newWindowStore (maxPerPID maxPIDs : Int) : WindowStore where
  maxPerPID := if maxPerPID ≤ 0 then defaultMaxSamplingWindowsPerPID else maxPerPID.toNat
  maxPIDs := if maxPIDs ≤ 0 then defaultMaxSamplingWindowPIDs else maxPIDs.toNat

namespace WindowStore

/-- The history `add` continues for a process, or `none` when the process is refused. -/
def setFor (s : WindowStore) (pid : Nat) : Option WindowSet :=
  match s.byPID.find? pid with
  | some set => some set
  | none => if s.byPID.size ≥ s.maxPIDs then none else some {}

def add (s : WindowStore) (w : GPUSamplingWindow) : WindowStore :=
  if w.endNs ≠ 0 ∧ w.endNs < w.startNs then { s with unknownMode := s.unknownMode + 1 }
  else
    match s.setFor w.pid with
    | none => { s with refusedPIDs := s.refusedPIDs + 1 }
    | some set =>
      let (set, superseded, evicted) := set.add s.maxPerPID w
      { s with
        byPID := s.byPID.put w.pid set
        received := s.received + 1
        unknownMode :=
          if w.mode ≠ .continuous ∧ w.mode ≠ .kernelSerialized then s.unknownMode + 1
          else s.unknownMode
        superseded := if superseded then s.superseded + 1 else s.superseded
        evicted := s.evicted + evicted }

def classify (s : WindowStore) (pid startNs endNs : Nat) : SerializationState :=
  if endNs < startNs then .unknown
  else
    match s.byPID.find? pid with
    | none => .unknown
    | some set => set.classify startNs endNs

def windows (s : WindowStore) : Nat × Nat :=
  (s.byPID.sum fun set => set.wins.length, s.byPID.sum fun set => set.wins.countP SamplingWindow.isOpen)

/-- `EmitSamplingWindow` of a sink that is nothing but the store: it never refuses. -/
def emitSamplingWindow (s : WindowStore) (w : GPUSamplingWindow) : WindowStore × Bool :=
  (s.add w, true)

def run (s : WindowStore) (ws : List GPUSamplingWindow) : WindowStore := ws.foldl add s

end WindowStore

variable {ws : List SamplingWindow} {nw : SamplingWindow} {cov : Nat}

/-! ## What the three answers mean -/

namespace WindowSet

theorem scan_eq_none {s e : Nat} : ∀ {b : Bool},
    scan s e ws b = none ↔ ∃ w ∈ ws, w.intersects s e = true ∧ w.proves = true := by
  induction ws with
  | nil => simp [scan]
  | cons w ws ih =>
    intro b
    unfold scan
    split_ifs with hi ho hm hs
    · rw [ih]; simp_all
    · rw [ih]; simp_all [SamplingWindow.proves]
    · rw [ih]; simp_all [SamplingWindow.proves, SamplingWindow.serializes]
    · simp_all [SamplingWindow.proves]
    · rw [ih]; simp_all [SamplingWindow.proves]

theorem scan_eq_some_false {s e : Nat} : ∀ {b : Bool}, scan s e ws b = some false ↔
      b = false ∧ ∀ w ∈ ws, w.intersects s e = true → w.proves = false ∧ w.ambiguous = false := by
  induction ws with
  | nil => simp [scan]
  | cons w ws ih =>
    intro b
    unfold scan
    split_ifs with hi ho hm hs
    · rw [ih]; simp_all
    · rw [ih]; simp_all [SamplingWindow.ambiguous]
    · rw [ih]; simp_all [SamplingWindow.ambiguous]
    · simp_all [SamplingWindow.proves]
    · rw [ih]; simp_all [SamplingWindow.proves, SamplingWindow.ambiguous]

theorem classify_eq_serialized {set : WindowSet} {s e : Nat} :
    set.classify s e = .serialized ↔ s ≤ e ∧ set.haveCoverage = true ∧
      ∃ w ∈ set.wins, w.intersects s e = true ∧ w.proves = true := by
  rw [← scan_eq_none (b := false)]
  unfold classify
  split_ifs with h1 h2
  · simp; omega
  · simp [h2]
  · split
    · simp_all
    · simp_all
    · next hs =>
        split
        · simp_all
        · split_ifs <;> simp_all

/-- "Not serialized" is exactly containment in the covered span, with every window it
meets a closed one that says nothing was serialized. -/
theorem classify_eq_notSerialized {set : WindowSet} {s e : Nat} :
    set.classify s e = .notSerialized ↔ s ≤ e ∧ set.haveCoverage = true ∧
      (∀ w ∈ set.wins, w.intersects s e = true → w.proves = false ∧ w.ambiguous = false) ∧
      set.coverageStartNs ≤ s ∧ ∃ c, set.coverageEndNs = some c ∧ e ≤ c := by
  unfold classify
  split_ifs with h1 h2
  · simp; omega
  · simp [h2]
  · split
    · next hs =>
        rw [scan_eq_none] at hs
        obtain ⟨w, hw, hi, hp⟩ := hs
        simp only [reduceCtorEq, false_iff]
        rintro ⟨-, -, h, -⟩
        simp [(h w hw hi).1] at hp
    · next hs =>
        simp only [reduceCtorEq, false_iff]
        rintro ⟨-, -, h, -⟩
        rw [scan_eq_some_false.mpr ⟨rfl, h⟩] at hs
        cases hs
    · next hs =>
        obtain ⟨-, h⟩ := scan_eq_some_false.mp hs
        cases hc : set.coverageEndNs with
        | none => simp
        | some c =>
          simp only [Option.some.injEq]
          split_ifs with h3
          · simp only [false_iff]
            rintro ⟨-, -, -, h4, c', rfl, h5⟩
            omega
          · refine ⟨fun _ => ⟨by omega, by simpa using h2, h, by omega, c, rfl, by omega⟩,
              fun _ => rfl⟩

/-! ## What one record does to a history

The windows of a history stand in strictly increasing start order, so a burst is
held once and a new burst has exactly one place. -/

def StartOrdered (wins : List SamplingWindow) : Prop :=
  wins.Pairwise fun a b => a.startNs < b.startNs

theorem StartOrdered.eq_of_perm {l l' : List SamplingWindow} (h : StartOrdered l)
    (h' : StartOrdered l') (hp : l.Perm l') : l = l' :=
  hp.eq_of_pairwise (fun _ _ _ _ hab hba => absurd hab (Nat.lt_asymm hba)) h h'

theorem keep_startNs {w : SamplingWindow} (h : w.startNs = nw.startNs) : (keep w nw).startNs = w.startNs := by
  unfold keep
  split
  · exact h.symm
  · rfl

theorem supersedeBackwards_eq_none : supersedeBackwards nw ws = none ↔ ∀ w ∈ ws, w.startNs ≠ nw.startNs := by
  induction ws with
  | nil => simp [supersedeBackwards]
  | cons w ws ih =>
    unfold supersedeBackwards
    split_ifs with h
    · simp [ih, h]
    · simp_all

theorem supersedeBackwards_eq_some {ws' : List SamplingWindow} (h : supersedeBackwards nw ws = some ws') :
    ∃ pre w post, ws = pre ++ w :: post ∧ w.startNs = nw.startNs ∧ ws' = pre ++ keep w nw :: post := by
  induction ws generalizing ws' with
  | nil => cases h
  | cons w ws ih =>
    unfold supersedeBackwards at h
    split_ifs at h with hne
    · obtain ⟨l, hl, rfl⟩ := map_eq_some_iff.mp h
      obtain ⟨pre, v, post, rfl, hv, rfl⟩ := ih hl
      exact ⟨w :: pre, v, post, rfl, hv, rfl⟩
    · exact ⟨[], w, ws, rfl, not_not.mp hne, (Option.some.inj h).symm⟩

theorem supersede_eq_none : supersede nw ws = none ↔ ∀ w ∈ ws, w.startNs ≠ nw.startNs := by
  simp [supersede, supersedeBackwards_eq_none]

theorem supersede_eq_some {ws' : List SamplingWindow} (h : supersede nw ws = some ws') :
    ∃ pre w post, ws = pre ++ w :: post ∧ w.startNs = nw.startNs ∧ ws' = pre ++ keep w nw :: post := by
  obtain ⟨l, hl, rfl⟩ := map_eq_some_iff.mp h
  obtain ⟨pre, w, post, hw, hs, rfl⟩ := supersedeBackwards_eq_some hl
  refine ⟨post.reverse, w, pre.reverse, ?_, hs, by simp⟩
  rw [← List.reverse_reverse ws, hw]
  simp

theorem map_startNs_supersede {ws' : List SamplingWindow} (h : supersede nw ws = some ws') :
    ws'.map SamplingWindow.startNs = ws.map SamplingWindow.startNs := by
  obtain ⟨pre, w, post, rfl, hs, rfl⟩ := supersede_eq_some h
  simp [keep_startNs hs]

theorem append_perm (nw : SamplingWindow) (ws : List SamplingWindow) : (append nw ws).Perm (ws ++ [nw]) := by
  unfold append
  cases hl : ws.getLast? with
  | none => simp [List.getLast?_eq_none_iff.mp hl]
  | some tail =>
    simp only
    split
    · exact List.perm_insertionSort _ _
    · exact List.Perm.refl _

theorem append_startOrdered (h : StartOrdered ws) (hn : ∀ w ∈ ws, w.startNs ≠ nw.startNs) :
    StartOrdered (append nw ws) := by
  have hle : (append nw ws).Pairwise fun a b => a.startNs ≤ b.startNs := by
    unfold append
    cases hl : ws.getLast? with
    | none => exact List.pairwise_singleton _ _
    | some tail =>
      simp only
      split
      · exact List.pairwise_insertionSort _ _
      · next hge =>
          obtain ⟨init, rfl⟩ := List.getLast?_eq_some_iff.mp hl
          obtain ⟨-, -, hlast⟩ := List.pairwise_append.mp h
          refine List.pairwise_append.mpr ⟨h.imp Nat.le_of_lt, List.pairwise_singleton _ _, ?_⟩
          intro a ha b hb
          rw [List.mem_singleton.mp hb]
          rcases List.mem_append.mp ha with ha | ha
          · have := hlast a ha tail (List.mem_singleton_self _)
            omega
          · rw [List.mem_singleton.mp ha]
            omega
  have hne : (append nw ws).Pairwise fun a b => a.startNs ≠ b.startNs := by
    refine (List.Perm.pairwise_iff (fun {a b} h => Ne.symm h) (append_perm nw ws)).mpr ?_
    refine List.pairwise_append.mpr ⟨h.imp Nat.ne_of_lt, List.pairwise_singleton _ _, ?_⟩
    intro a ha b hb
    rw [List.mem_singleton.mp hb]
    exact hn a ha
  exact hle.imp₂ (fun a b hle hne => Nat.lt_of_le_of_ne hle hne) hne

theorem append_eq {nw : SamplingWindow} {pre post : List SamplingWindow}
    (h : StartOrdered (pre ++ post)) (hpre : ∀ w ∈ pre, w.startNs < nw.startNs)
    (hpost : ∀ w ∈ post, nw.startNs < w.startNs) :
    append nw (pre ++ post) = pre ++ nw :: post := by
  refine (append_startOrdered h fun w hw => ?_).eq_of_perm ?_ ((append_perm _ _).trans ?_)
  · rcases List.mem_append.mp hw with hw | hw
    · exact Nat.ne_of_lt (hpre w hw)
    · exact Nat.ne_of_gt (hpost w hw)
  · obtain ⟨h1, h2, h3⟩ := List.pairwise_append.mp h
    refine List.pairwise_append.mpr ⟨h1, List.pairwise_cons.mpr ⟨hpost, h2⟩, fun a ha b hb => ?_⟩
    rcases List.mem_cons.mp hb with rfl | hb
    · exact hpre a ha
    · exact h3 a ha b hb
  · rw [List.append_assoc]
    exact (List.perm_append_singleton nw post).append_left pre

theorem StartOrdered.split {ws : List SamplingWindow} (h : StartOrdered ws) {n : Nat}
    (hn : ∀ w ∈ ws, w.startNs ≠ n) : ∃ pre post, ws = pre ++ post ∧
      (∀ w ∈ pre, w.startNs < n) ∧ ∀ w ∈ post, n < w.startNs := by
  induction ws with
  | nil => exact ⟨[], [], rfl, by simp, by simp⟩
  | cons w ws ih =>
    obtain ⟨hw, hws⟩ := List.pairwise_cons.mp h
    by_cases hlt : w.startNs < n
    · obtain ⟨pre, post, rfl, hpre, hpost⟩ := ih hws fun v hv => hn v (List.mem_cons_of_mem _ hv)
      exact ⟨w :: pre, post, rfl, List.forall_mem_cons.mpr ⟨hlt, hpre⟩, hpost⟩
    · refine ⟨[], w :: ws, rfl, by simp, fun v hv => ?_⟩
      have hne := hn w List.mem_cons_self
      rcases List.mem_cons.mp hv with rfl | hv
      · omega
      · have := hw v hv
        omega

/-! ## The end of the coverage -/

def carry (w : SamplingWindow) (acc : Option Nat) : Nat :=
  max (max (acc.getD 0) w.endNs) (w.provenQuietUntil.getD 0)

theorem coverageEndFrom_cons (cov : Nat) (w : SamplingWindow) (ws : List SamplingWindow)
    (acc : Option Nat) : coverageEndFrom cov (w :: ws) acc =
      if w.startNs < cov then coverageEndFrom cov ws acc
      else if w.isOpen then some w.startNs
      else coverageEndFrom cov ws (some (carry w acc)) := by
  conv_lhs => unfold coverageEndFrom
  split_ifs
  · rfl
  · rfl
  · refine congrArg (fun e => coverageEndFrom cov ws (some e)) ?_
    have hmax : ∀ a b : Nat, (if b > a then b else a) = max a b := by
      intro a b
      split_ifs <;> omega
    unfold carry
    cases acc <;> cases w.provenQuietUntil <;>
      simp only [hmax, getD_none, getD_some, Nat.zero_max, Nat.max_zero]

theorem coverageEndFrom_skip (h : ∀ w ∈ ws, w.startNs < cov) (ws' : List SamplingWindow) (acc : Option Nat) :
    coverageEndFrom cov (ws ++ ws') acc = coverageEndFrom cov ws' acc := by
  induction ws with
  | nil => rfl
  | cons w ws ih =>
    rw [List.forall_mem_cons] at h
    rw [List.cons_append, coverageEndFrom_cons, if_pos h.1, ih h.2]

theorem coverageEndFrom_append (cov : Nat) (h : ∀ w ∈ ws, w.isOpen = false) (ws' : List SamplingWindow) : ∀ acc,
    ∃ acc', (∀ c ∈ acc, ∃ c' ∈ acc', c ≤ c') ∧ coverageEndFrom cov (ws ++ ws') acc = coverageEndFrom cov ws' acc' := by
  induction ws with
  | nil => exact fun acc => ⟨acc, fun c hc => ⟨c, hc, Nat.le_refl c⟩, rfl⟩
  | cons w ws ih =>
    intro acc
    rw [List.forall_mem_cons] at h
    rw [List.cons_append, coverageEndFrom_cons, h.1, if_neg Bool.false_ne_true]
    split_ifs
    · exact ih h.2 acc
    · obtain ⟨acc', hle, heq⟩ := ih h.2 (some (carry w acc))
      obtain ⟨c', hc', hle'⟩ := hle _ rfl
      refine ⟨acc', fun c hc => ⟨c', hc', ?_⟩, heq⟩
      rw [mem_def] at hc
      have : c ≤ carry w acc := by
        rw [carry, hc, getD_some]
        omega
      exact this.trans hle'

theorem coverageEndFrom_mono {cov : Nat} {ws : List SamplingWindow} : ∀ {acc acc' : Option Nat},
    (∀ c ∈ acc, ∃ c' ∈ acc', c ≤ c') → ∀ {c : Nat}, coverageEndFrom cov ws acc = some c →
    ∃ c', coverageEndFrom cov ws acc' = some c' ∧ c ≤ c' := by
  induction ws with
  | nil => exact fun hle c hc => hle c hc
  | cons w ws ih =>
    intro acc acc' hle c hc
    rw [coverageEndFrom_cons] at hc ⊢
    split_ifs at hc ⊢
    · exact ih hle hc
    · exact ⟨w.startNs, rfl, (Option.some.inj hc).ge⟩
    · refine ih (fun d hd => ⟨carry w acc', rfl, ?_⟩) hc
      rw [← Option.some.inj hd, carry, carry]
      cases acc with
      | none => simp only [getD_none]; omega
      | some a =>
        obtain ⟨a', ha', hle⟩ := hle a rfl
        rw [mem_def.mp ha', getD_some, getD_some]
        omega

theorem coverageEndFrom_congr {cov' : Nat} (h : ∀ w ∈ ws, cov ≤ w.startNs ∧ cov' ≤ w.startNs) : ∀ acc,
    coverageEndFrom cov ws acc = coverageEndFrom cov' ws acc := by
  induction ws with
  | nil => exact fun _ => rfl
  | cons w ws ih =>
    intro acc
    rw [List.forall_mem_cons] at h
    rw [coverageEndFrom_cons, coverageEndFrom_cons, if_neg (Nat.not_lt.mpr h.1.1), if_neg (Nat.not_lt.mpr h.1.2)]
    split_ifs
    · rfl
    · exact ih h.2 _

theorem coverageEndFrom_attained : ∀ {acc : Option Nat} {c : Nat}, coverageEndFrom cov ws acc = some c → acc = some c ∨
      ∃ w ∈ ws, cov ≤ w.startNs ∧ (w.isOpen = true ∧ c = w.startNs ∨
        w.isOpen = false ∧ (c = w.endNs ∨ w.provenQuietUntil = some c)) := by
  induction ws with
  | nil => exact fun h => .inl h
  | cons w ws ih =>
    intro acc c h
    rw [coverageEndFrom_cons] at h
    split_ifs at h with hlt ho
    · rcases ih h with h | ⟨v, hv, h⟩
      · exact .inl h
      · exact .inr ⟨v, List.mem_cons_of_mem _ hv, h⟩
    · exact .inr ⟨w, List.mem_cons_self, Nat.not_lt.mp hlt, .inl ⟨ho, (Option.some.inj h).symm⟩⟩
    · have ho : w.isOpen = false := by simpa using ho
      rcases ih h with h | ⟨v, hv, h⟩
      · have hc : carry w acc = c := Option.some.inj h
        -- the carried value is one of the three it is the maximum of
        have h3 : c = acc.getD 0 ∨ c = w.endNs ∨ c = w.provenQuietUntil.getD 0 := by
          rw [carry] at hc
          omega
        have hw : ∀ hh : c = w.endNs ∨ w.provenQuietUntil = some c, acc = some c ∨
            ∃ v ∈ w :: ws, cov ≤ v.startNs ∧ (v.isOpen = true ∧ c = v.startNs ∨
              v.isOpen = false ∧ (c = v.endNs ∨ v.provenQuietUntil = some c)) :=
          fun hh => .inr ⟨w, List.mem_cons_self, Nat.not_lt.mp hlt, .inr ⟨ho, hh⟩⟩
        by_cases hend : c = w.endNs
        · exact hw (.inl hend)
        · rcases h3 with h3 | h3 | h3
          · cases acc with
            | none =>
              rw [carry, getD_none] at hc
              rw [getD_none] at h3
              omega
            | some a => exact .inl (by rw [h3, getD_some])
          · exact absurd h3 hend
          · cases hq : w.provenQuietUntil with
            | none =>
              rw [hq, getD_none] at h3
              rw [carry, hq, getD_none] at hc
              omega
            | some q => exact hw (.inr (by rw [hq, h3, hq, getD_some]))
      · exact .inr ⟨v, List.mem_cons_of_mem _ hv, h⟩

theorem le_coverageEndFrom (hclosed : ∀ w ∈ ws, w.isOpen = false) {w : SamplingWindow} (hw : w ∈ ws)
    (hcov : cov ≤ w.startNs) {q : Nat} (hq : w.provenQuietUntil = some q) (acc : Option Nat) :
    ∃ c, coverageEndFrom cov ws acc = some c ∧ q ≤ c := by
  obtain ⟨pre, post, rfl⟩ := List.append_of_mem hw
  obtain ⟨acc', -, heq⟩ := coverageEndFrom_append cov
    (fun v hv => hclosed v (List.mem_append_left _ hv)) (w :: post) acc
  rw [heq, coverageEndFrom_cons, if_neg (Nat.not_lt.mpr hcov), hclosed w hw, if_neg Bool.false_ne_true]
  have hpost : ∀ v ∈ post, v.isOpen = false := fun v hv => hclosed v (by simp [hv])
  obtain ⟨acc'', hle, heq'⟩ := coverageEndFrom_append cov hpost [] (some (carry w acc'))
  rw [List.append_nil] at heq'
  obtain ⟨c, hc, hcle⟩ := hle _ rfl
  refine ⟨c, heq'.trans hc, ?_⟩
  rw [carry, hq, getD_some] at hcle
  omega

theorem coverageEndNs_eq {set : WindowSet} (h : set.haveCoverage = true) :
    set.coverageEndNs = coverageEndFrom set.coverageStartNs set.wins none := by
  unfold coverageEndNs
  split
  · next hn =>
      rcases hn with hn | hn
      · rw [h] at hn
        cases hn
      · rw [hn]; rfl
  · rfl

end WindowSet

end PerfAgent.Gpu
