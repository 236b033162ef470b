import PerfAgent.Gpu.SerializationEviction

/-!
# What the store holds of a burst

A process's history that has room for all its records keeps every closed one, whatever else
it is given and in whatever order, as long as no two closed records disagree about a burst.
A closed record of a serialized burst then answers for every execution it meets.
-/

namespace PerfAgent.Gpu

variable {ws : List GPUSamplingWindow}

open List

namespace WindowSet

/-- The closed windows of the history are exactly the closed records it was given. -/
structure Holds (set : WindowSet) (ws : List GPUSamplingWindow) : Prop where
  room : set.wins.length ≤ ws.length
  coverage : ws ≠ [] → set.haveCoverage = true
  held : ∀ r ∈ ws, (ofRecord r).isOpen = false → ofRecord r ∈ set.wins
  given : ∀ v ∈ set.wins, v.isOpen = false → ∃ r ∈ ws, ofRecord r = v

def Agree (ws : List GPUSamplingWindow) : Prop :=
  ∀ r ∈ ws, ∀ r' ∈ ws, (ofRecord r).isOpen = false → (ofRecord r').isOpen = false →
    r.startNs = r'.startNs → ofRecord r = ofRecord r'

theorem haveCoverage_restart (set : WindowSet) (w : GPUSamplingWindow) : (set.restart w).haveCoverage = true := by
  unfold restart
  split
  · rfl
  · simp_all

theorem keep_of_closed {w nw : SamplingWindow} (hw : w.isOpen = false) : keep w nw = w := by
  simp [keep, hw]

theorem Holds.add {set : WindowSet} {ws : List GPUSamplingWindow} {r : GPUSamplingWindow}
    {n : Nat} (h : set.Holds ws) (hroom : ws.length < n) (hagree : Agree (ws ++ [r])) :
    (set.add n r).1.Holds (ws ++ [r]) := by
  have hroom' : set.wins.length + 1 ≤ n := (Nat.succ_le_succ h.room).trans hroom
  cases hs : supersede (ofRecord r) set.wins with
  | none =>
    rw [(add_room hs hroom').1]
    have hperm := append_perm (ofRecord r) set.wins
    constructor
    · simpa [length_append] using h.room
    · exact fun _ => haveCoverage_restart set r
    · intro r' hr' hclosed
      refine hperm.mem_iff.mpr ?_
      obtain hr' | hr' := mem_append.mp hr'
      · exact mem_append_left _ (h.held r' hr' hclosed)
      · rw [mem_singleton.mp hr']
        exact mem_append_right _ (mem_singleton_self _)
    · intro v hv hclosed
      obtain hv | hv := mem_append.mp (hperm.mem_iff.mp hv)
      · obtain ⟨r', hr', heq⟩ := h.given v hv hclosed
        exact ⟨r', mem_append_left _ hr', heq⟩
      · exact ⟨r, by simp, (mem_singleton.mp hv).symm⟩
  | some wins =>
    rw [add_of_supersede hs]
    obtain ⟨pre, w, post, heq, hstart, rfl⟩ := supersede_eq_some hs
    have hmem : ∀ v ∈ set.wins, v.isOpen = false → v ∈ pre ++ keep w (ofRecord r) :: post := by
      intro v hv hclosed
      rw [heq] at hv
      obtain hv | rfl | hv := mem_append.mp hv |>.imp_right mem_cons.mp
      · exact mem_append_left _ hv
      · rw [keep_of_closed hclosed]
        simp
      · simp [hv]
    constructor
    · have hlen := h.room
      rw [heq] at hlen
      simp only [List.length_append, length_cons] at hlen ⊢
      omega
    · exact fun _ => haveCoverage_restart set r
    · intro r' hr' hclosed
      obtain hr' | hr' := mem_append.mp hr'
      · exact hmem _ (h.held r' hr' hclosed) hclosed
      · obtain rfl := mem_singleton.mp hr'
        cases hw : w.isOpen with
        | true => simp [keep, hw, hclosed]
        | false =>
          -- the burst is closed already, by a record that agrees with this one
          obtain ⟨r₀, hr₀, rfl⟩ := h.given w (by simp [heq]) hw
          have hsame := hagree r₀ (mem_append_left _ hr₀) r' (by simp) hw hclosed hstart
          rw [keep_of_closed hw, hsame]
          simp
    · intro v hv hclosed
      have hold : v ∈ set.wins → ∃ r' ∈ ws ++ [r], ofRecord r' = v := by
        intro hv
        obtain ⟨r', hr', heq⟩ := h.given v hv hclosed
        exact ⟨r', mem_append_left _ hr', heq⟩
      obtain hv | hv | hv := mem_append.mp hv |>.imp_right mem_cons.mp
      · exact hold (by simp [heq, hv])
      · unfold keep at hv
        split at hv
        · exact ⟨r, by simp, hv.symm⟩
        · exact hold (by simp [heq, hv])
      · exact hold (by simp [heq, hv])

theorem Holds.classify {set : WindowSet} {ws : List GPUSamplingWindow} {w : SamplingWindow}
    (h : set.Holds ws) (hw : w ∈ ws.map ofRecord) (hclosed : w.isOpen = false)
    (hmode : w.mode = .kernelSerialized) {x y : Nat} (hxy : x ≤ y) (hx : x ≤ w.endNs)
    (hy : w.startNs ≤ y) : set.classify x y = .serialized := by
  obtain ⟨r, hr, rfl⟩ := mem_map.mp hw
  refine classify_eq_serialized.mpr ⟨hxy, h.coverage (ne_nil_of_mem hr), ?_⟩
  refine ⟨ofRecord r, h.held r hr hclosed, ?_, ?_⟩
  · exact SamplingWindow.intersects_iff.mpr ⟨hy, .inr hx⟩
  · rw [SamplingWindow.proves, SamplingWindow.serializes, hclosed, hmode]
    rfl

end WindowSet

namespace WindowStore

theorem holds_run {maxPerPID maxPIDs : Int} {pid : Nat} (hpid : ∀ r ∈ ws, r.pid = pid)
    (hstraight : ∀ r ∈ ws, r.endNs = 0 ∨ r.startNs ≤ r.endNs) (hagree : WindowSet.Agree ws)
    (hroom : ws.length ≤ (newWindowStore maxPerPID maxPIDs).maxPerPID) :
    ∃ set, ((newWindowStore maxPerPID maxPIDs).run ws).setFor pid = some set ∧
      (ws ≠ [] → ((newWindowStore maxPerPID maxPIDs).run ws).byPID.find? pid = some set) ∧
      set.Holds ws := by
  induction ws using List.reverseRecOn with
  | nil =>
    refine ⟨{}, ?_, fun h => absurd rfl h, ?_⟩
    · have hpos : 0 < (newWindowStore maxPerPID maxPIDs).maxPIDs := by
        simp only [newWindowStore, defaultMaxSamplingWindowPIDs]
        split <;> omega
      exact if_neg (Nat.not_le.mpr hpos)
    · exact ⟨le_rfl, fun h => absurd rfl h, fun _ hr => absurd hr not_mem_nil,
        fun _ hv => absurd hv not_mem_nil⟩
  | append_singleton ws r ih =>
    rw [List.length_append, length_singleton] at hroom
    obtain ⟨set, hset, -, hholds⟩ := ih (fun r' hr' => hpid r' (mem_append_left _ hr'))
      (fun r' hr' => hstraight r' (mem_append_left _ hr'))
      (fun r₁ h₁ r₂ h₂ => hagree r₁ (mem_append_left _ h₁) r₂ (mem_append_left _ h₂))
      (by omega)
    have hr : r.pid = pid := hpid r (by simp)
    have hinv : ¬(r.endNs ≠ 0 ∧ r.endNs < r.startNs) := by
      have := hstraight r (by simp)
      omega
    obtain ⟨hbyPID, -, -⟩ := add_of_setFor hinv (hr ▸ hset)
    rw [maxPerPID_run] at hbyPID
    have hfind : ((newWindowStore maxPerPID maxPIDs).run (ws ++ [r])).byPID.find? pid =
        some (set.add (newWindowStore maxPerPID maxPIDs).maxPerPID r).1 := by
      rw [run_snoc, hbyPID, hr, AssocMap.find?_put, if_pos rfl]
    refine ⟨_, ?_, fun _ => hfind, hholds.add (by omega) hagree⟩
    rw [setFor, hfind]

theorem classify_of_held {maxPerPID maxPIDs : Int} {pid : Nat} (hpid : ∀ r ∈ ws, r.pid = pid)
    (hstraight : ∀ r ∈ ws, r.endNs = 0 ∨ r.startNs ≤ r.endNs) (hagree : WindowSet.Agree ws)
    (hroom : ws.length ≤ (newWindowStore maxPerPID maxPIDs).maxPerPID) {w : SamplingWindow}
    (hw : w ∈ ws.map WindowSet.ofRecord) (hclosed : w.isOpen = false) (hmode : w.mode = .kernelSerialized) {x y : Nat}
    (hxy : x ≤ y) (hx : x ≤ w.endNs) (hy : w.startNs ≤ y) :
    ((newWindowStore maxPerPID maxPIDs).run ws).classify pid x y = .serialized := by
  obtain ⟨set, -, hfind, hholds⟩ := holds_run hpid hstraight hagree hroom
  have hne : ws ≠ [] := by
    rintro rfl
    cases hw
  rw [classify, if_neg (Nat.not_lt.mpr hxy), hfind hne]
  exact hholds.classify hw hclosed hmode hxy hx hy

end WindowStore
end PerfAgent.Gpu
