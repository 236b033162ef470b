import PerfAgent.Gpu.SerializationHeld

/-!
# The start of the coverage

The coverage of a process restarts at every record that reports a loss, wherever that record
starts.  So it moves back exactly with a record that reports a loss, starts before the
coverage and finds its burst's place in the history, or room for it: in a full history whose
windows are all covered, the same record is dropped at once and the start is put back.
-/

namespace PerfAgent.Gpu

namespace WindowSet

structure Sound (n : Nat) (set : WindowSet) : Prop where
  ordered : StartOrdered set.wins
  room : set.wins.length ≤ n
  coverage : set.haveCoverage = true

/-- The record does not restart the coverage at an earlier instant, or the restart does not
last. -/
def Forward (n : Nat) (set : WindowSet) (w : GPUSamplingWindow) : Prop :=
  w.lost = 0 ∨ set.coverageStartNs ≤ w.startNs ∨ (set.wins.length = n ∧ ∀ v ∈ set.wins, set.coverageStartNs ≤ v.startNs)

instance (n : Nat) (set : WindowSet) (w : GPUSamplingWindow) : Decidable (set.Forward n w) :=
  inferInstanceAs (Decidable (_ ∨ _))

theorem coverageStartNs_restart {set : WindowSet} (h : set.haveCoverage = true)
    (w : GPUSamplingWindow) : (set.restart w).coverageStartNs =
      if w.lost = 0 then set.coverageStartNs else w.startNs := by
  unfold restart
  by_cases hl : w.lost = 0
  · rw [if_neg (by simp [hl, h]), if_pos hl]
  · rw [if_pos (.inl (Nat.pos_of_ne_zero hl)), if_neg hl]

theorem haveCoverage_add (set : WindowSet) (n : Nat) (w : GPUSamplingWindow) : (set.add n w).1.haveCoverage = true := by
  have hr := haveCoverage_restart set w
  cases hs : supersede (ofRecord w) set.wins with
  | some wins =>
    rw [add_of_supersede hs]
    exact hr
  | none =>
    rw [add_of_append hs, evict]
    split <;> exact hr

theorem Sound.add {n : Nat} {set : WindowSet} (hord : StartOrdered set.wins)
    (hroom : set.wins.length ≤ n) (w : GPUSamplingWindow) : (set.add n w).1.Sound n := by
  refine ⟨?_, ?_, haveCoverage_add set n w⟩
  · cases hs : supersede (ofRecord w) set.wins with
    | some wins =>
      rw [add_of_supersede hs]
      exact hord.congr (map_startNs_supersede hs)
    | none =>
      rw [wins_add_of_append hs]
      exact (append_startOrdered hord (supersede_eq_none.mp hs)).sublist (List.drop_sublist _ _)
  · cases hs : supersede (ofRecord w) set.wins with
    | some wins =>
      rw [add_of_supersede hs]
      have hlen := congrArg List.length (map_startNs_supersede hs)
      rw [List.length_map, List.length_map] at hlen
      exact hlen.trans_le hroom
    | none =>
      rw [wins_add_of_append hs, kept, List.length_drop, length_append]
      omega

/-- In a full history the record that is dropped is the oldest one, and what is left starts
at the second oldest. -/
theorem le_second_iff {nw a b : SamplingWindow} {wins bs : List SamplingWindow} {c : Nat}
    (hord : StartOrdered (a :: b :: bs)) (hmem : ∀ v, v ∈ a :: b :: bs ↔ v ∈ wins ∨ v = nw)
    (hnew : nw ∉ wins) (hlt : nw.startNs < c) : c ≤ b.startNs ↔ ∀ v ∈ wins, c ≤ v.startNs := by
  obtain ⟨ha, hb⟩ := List.pairwise_cons.mp hord
  have hfirst : ∀ v ∈ b :: bs, b.startNs ≤ v.startNs := by
    intro v hv
    rcases List.mem_cons.mp hv with rfl | hv
    · exact le_rfl
    · exact Nat.le_of_lt (List.rel_of_pairwise_cons hb hv)
  constructor
  · intro hle v hv
    rcases List.mem_cons.mp ((hmem v).mpr (.inl hv)) with rfl | hv'
    · -- then the new window is not the oldest, but it starts before the coverage
      rcases List.mem_cons.mp ((hmem nw).mpr (.inr rfl)) with rfl | hnw
      · exact absurd hv hnew
      · have := hfirst nw hnw
        omega
    · exact hle.trans (hfirst v hv')
  · intro hall
    rcases (hmem b).mp (by simp) with hb' | rfl
    · exact hall b hb'
    · rcases (hmem a).mp (by simp) with ha' | rfl
      · have := hall a ha'
        have := ha b List.mem_cons_self
        omega
      · exact absurd (ha a List.mem_cons_self) (Nat.lt_irrefl _)

theorem Sound.le_coverageStartNs_add_iff {n : Nat} {set : WindowSet} (h : set.Sound n)
    (hpos : 0 < n) (w : GPUSamplingWindow) :
    set.coverageStartNs ≤ (set.add n w).1.coverageStartNs ↔ set.Forward n w := by
  have hr := coverageStartNs_restart h.coverage w
  unfold Forward
  cases hs : supersede (ofRecord w) set.wins with
  | some wins =>
    rw [add_of_supersede hs]
    simp only [hr]
    obtain ⟨pre, u, post, heq, hu, -⟩ := supersede_eq_some hs
    have hu : u.startNs = w.startNs := hu
    have hmem : u ∈ set.wins := by simp [heq]
    split_ifs with hl
    · simp [hl]
    · constructor
      · exact fun hle => .inr (.inl hle)
      · rintro (h0 | hle | ⟨-, hall⟩)
        · exact absurd h0 hl
        · exact hle
        · exact hu ▸ hall u hmem
  | none =>
    by_cases hfull : set.wins.length = n
    · have hord := append_startOrdered h.ordered (supersede_eq_none.mp hs)
      have hlen := length_append (ofRecord w) set.wins
      have hperm := append_perm (ofRecord w) set.wins
      cases ha : append (ofRecord w) set.wins with
      | nil =>
        rw [ha] at hlen
        cases hlen
      | cons a l =>
        cases l with
        | nil =>
          rw [ha, List.length_singleton] at hlen
          omega
        | cons b bs =>
          rw [(add_full hs hfull ha).1]
          simp only [hr]
          split_ifs with hl
          · simp only [hl, true_or, iff_true]
            exact Nat.le_max_left _ _
          · rw [ha] at hord hperm
            have hmem : ∀ v, v ∈ a :: b :: bs ↔ v ∈ set.wins ∨ v = ofRecord w := by
              intro v
              rw [hperm.mem_iff, List.mem_append, List.mem_singleton]
            by_cases hle : set.coverageStartNs ≤ w.startNs
            · simp only [hle, true_or, or_true, iff_true]
              exact hle.trans (Nat.le_max_left _ _)
            · have hnew : ofRecord w ∉ set.wins := fun hin => supersede_eq_none.mp hs _ hin rfl
              have hsecond := le_second_iff hord hmem hnew (Nat.not_le.mp hle)
              simp only [hl, hle, hfull, false_or, true_and, ← hsecond]
              omega
    · rw [(add_room hs (Nat.lt_of_le_of_ne h.room hfull)).1]
      simp only [hr, hfull, false_and, or_false]
      split_ifs with hl
      · simp [hl]
      · simp [hl]

end WindowSet

namespace WindowStore

open WindowSet

theorem find?_of_setFor {s : WindowStore} {pid : Nat} {set : WindowSet}
    (h : s.setFor pid = some set) : s.byPID.find? pid = some set ∨ set = {} := by
  unfold setFor at h
  cases hfind : s.byPID.find? pid with
  | some set' =>
    rw [hfind] at h
    exact .inl h
  | none =>
    rw [hfind] at h
    simp only at h
    split at h
    · cases h
    · exact .inr (Option.some.inj h).symm

/-- The coverage start of a process; the one of a process without a history is zero. -/
def coverageStartOf (s : WindowStore) (pid : Nat) : Nat :=
  match s.byPID.find? pid with
  | none => 0
  | some set => set.coverageStartNs

/-- The record is refused, or it is forward for the history it continues. -/
def Forward (s : WindowStore) (w : GPUSamplingWindow) : Prop :=
  (w.endNs ≠ 0 ∧ w.endNs < w.startNs) ∨ ∀ set ∈ s.byPID.find? w.pid, set.Forward s.maxPerPID w

instance (s : WindowStore) (w : GPUSamplingWindow) : Decidable (s.Forward w) :=
  inferInstanceAs (Decidable (_ ∨ _))

def CoverageKept (s : WindowStore) (w : GPUSamplingWindow) : Prop :=
  ∀ pid, s.coverageStartOf pid ≤ (s.add w).coverageStartOf pid

structure Sound (s : WindowStore) : Prop where
  pos : 0 < s.maxPerPID
  sets : ∀ pid set, s.byPID.find? pid = some set → set.Sound s.maxPerPID

theorem sound_newWindowStore (maxPerPID maxPIDs : Int) : (newWindowStore maxPerPID maxPIDs).Sound := by
  refine ⟨?_, fun pid set h => by cases h⟩
  simp only [newWindowStore, defaultMaxSamplingWindowsPerPID]
  split <;> omega

theorem Sound.add {s : WindowStore} (h : s.Sound) (w : GPUSamplingWindow) : (s.add w).Sound := by
  by_cases hinv : w.endNs ≠ 0 ∧ w.endNs < w.startNs
  · obtain ⟨hby, hmax, -⟩ := add_of_refused (s := s) (.inl hinv)
    exact ⟨hmax ▸ h.pos, by rw [hby, hmax]; exact h.sets⟩
  · cases hset : s.setFor w.pid with
    | none =>
      obtain ⟨hby, hmax, -⟩ := add_of_refused (.inr hset)
      exact ⟨hmax ▸ h.pos, by rw [hby, hmax]; exact h.sets⟩
    | some set =>
      obtain ⟨hby, hmax, -⟩ := add_of_setFor hinv hset
      refine ⟨hmax ▸ h.pos, fun pid set' hf => ?_⟩
      rw [hby, AssocMap.find?_put] at hf
      rw [hmax]
      split_ifs at hf with hpid
      · cases hf
        rcases find?_of_setFor hset with hfind | rfl
        · obtain ⟨hord, hroom, -⟩ := h.sets _ _ hfind
          exact WindowSet.Sound.add hord hroom w
        · refine WindowSet.Sound.add ?_ (Nat.zero_le _) w
          exact List.Pairwise.nil
      · exact h.sets pid set' hf

theorem Sound.coverageKept_iff {s : WindowStore} (h : s.Sound) (w : GPUSamplingWindow) :
    s.CoverageKept w ↔ s.Forward w := by
  unfold CoverageKept Forward coverageStartOf
  by_cases hinv : w.endNs ≠ 0 ∧ w.endNs < w.startNs
  · rw [(add_of_refused (s := s) (.inl hinv)).1]
    exact iff_of_true (fun _ => le_rfl) (.inl hinv)
  · rw [or_iff_right hinv]
    cases hfind : s.byPID.find? w.pid with
    | none =>
      refine iff_of_true (fun pid => ?_) (fun _ hset => by cases hset)
      by_cases hpid : pid = w.pid
      · rw [hpid, hfind]
        exact Nat.zero_le _
      · cases hset : s.setFor w.pid with
        | none => rw [(add_of_refused (.inr hset)).1]
        | some set => rw [(add_of_setFor hinv hset).1, AssocMap.find?_put_of_ne _ _ hpid]
    | some set =>
      have hset : s.setFor w.pid = some set := by rw [setFor, hfind]
      have hadd := (h.sets _ _ hfind).le_coverageStartNs_add_iff h.pos w
      rw [(add_of_setFor hinv hset).1]
      constructor
      · intro hall set' hset'
        cases hset'
        have := hall w.pid
        rw [hfind, AssocMap.find?_put_self] at this
        exact hadd.mp this
      · intro hf pid
        by_cases hpid : pid = w.pid
        · rw [hpid, hfind, AssocMap.find?_put_self]
          exact hadd.mpr (hf set rfl)
        · rw [AssocMap.find?_put_of_ne _ _ hpid]

/-- A run moves no coverage start back exactly when all its records are forward. -/
theorem coverage_kept_iff (maxPerPID maxPIDs : Int) (ws : List GPUSamplingWindow) :
    Along add CoverageKept (newWindowStore maxPerPID maxPIDs) ws ↔
      Along add Forward (newWindowStore maxPerPID maxPIDs) ws := by
  have hall : ∀ (ws : List GPUSamplingWindow) (s : WindowStore), s.Sound →
      (Along add CoverageKept s ws ↔ Along add Forward s ws) := by
    intro ws
    induction ws with
    | nil => exact fun _ _ => Iff.rfl
    | cons w ws ih => exact fun s h => and_congr (h.coverageKept_iff w) (ih _ (h.add w))
  exact hall ws _ (sound_newWindowStore maxPerPID maxPIDs)

/-- A late record that reports a loss takes the start of the coverage back with it. -/
theorem not_coverage_kept : ¬∀ (maxPerPID maxPIDs : Int) (ws : List GPUSamplingWindow),
    Along add CoverageKept (newWindowStore maxPerPID maxPIDs) ws := by
  intro h
  have hback := (h 2 1 [{ pid := 1, startNs := 20, mode := .continuous },
    { pid := 1, startNs := 10, mode := .continuous, lost := 1 }]).2.1 1
  revert hback
  decide

end WindowStore

end PerfAgent.Gpu
