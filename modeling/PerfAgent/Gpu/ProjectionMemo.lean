import PerfAgent.Gpu.Projection

/-!
# The memo of a projection

Without `gpu_correlation`, executions that differ in nothing else share their frames and their
labels (`projectionMemo` of `gpu/projection.go`).  What is stored under a key is what any view with
that key would get (`ProjectionMemo.Ok`), so a projection with the memo and one without it go in
step.
-/

namespace PerfAgent.Gpu

def projectExecutionsPlain (omitCorrelation : Bool) (answers : Nat → Nat → Resolution) (budget : PCLabelBudget)
    (snap : Snapshot) : Option (List (Pprof.ProfileSample × Nat) × PCLabelBudget) :=
  (snap.executions.zipIdx.foldlM (Projection.addView omitCorrelation answers)
    { memo := none, budget := budget }).map fun p => (p.samples, p.budget)

/-! ## What the keys settle -/

theorem projectionFrames_congr {v v' : ExecutionView} (h : sampledStack v = none) (h' : sampledStack v' = none)
    (hname : v.exec.kernelName = v'.exec.kernelName) : projectionFrames v = projectionFrames v' := by
  unfold projectionFrames
  rw [h, h', hname]

theorem entries_eq_nil {K V : Type} {m : AssocMap K V} (h : ¬ 0 < m.size) : m.entries = [] :=
  List.eq_nil_of_length_eq_zero (Nat.eq_zero_of_not_pos h)

theorem projectionLabels_congr {v v' : ExecutionView} (h : ¬ 0 < (launchTags v).size)
    (h' : ¬ 0 < (launchTags v').size) (hkey : labelKey v = labelKey v') :
    projectionLabels v true = projectionLabels v' true := by
  unfold labelKey at hkey
  simp only [LabelKey.mk.injEq] at hkey
  obtain ⟨hpid, hqueue, hdevice, hjoin, hambiguous, hrefused, hserialized, hperiod⟩ := hkey
  unfold projectionLabels
  rw [entries_eq_nil h, entries_eq_nil h', hpid, hqueue, hdevice, hjoin, hambiguous, hrefused, hserialized, hperiod]
  rfl

/-! ## The memo -/

structure ProjectionMemo.Ok (m : ProjectionMemo) : Prop where
  frames : ∀ name f, m.frameMemo.find? name = some f →
    ∀ v, sampledStack v = none → v.exec.kernelName = name → projectionFrames v = f
  labels : ∀ k l, m.labelMemo.find? k = some l →
    ∀ v, ¬ 0 < (launchTags v).size → labelKey v = k → projectionLabels v true = l

namespace ProjectionMemo

theorem ok_empty : Ok {} where
  frames _ _ h := by cases h
  labels _ _ h := by cases h

variable {m : ProjectionMemo}

theorem Ok.frames_eq (h : m.Ok) (v : ExecutionView) :
    ∃ m', ProjectionMemo.frames (some m) v = (some m', projectionFrames v) ∧ m'.Ok := by
  unfold ProjectionMemo.frames
  cases hs : sampledStack v with
  | some stack => exact ⟨m, rfl, h⟩
  | none =>
    simp only [Option.isSome_none, Bool.false_eq_true, if_false]
    cases hf : m.frameMemo.find? v.exec.kernelName with
    | some f =>
      refine ⟨m, ?_, h⟩
      rw [h.frames _ f hf v hs rfl]
    | none =>
      refine ⟨_, rfl, ⟨fun name f hname v' hs' hv' => ?_, h.labels⟩⟩
      rw [AssocMap.find?_put] at hname
      split at hname
      · next heq =>
          cases hname
          exact projectionFrames_congr hs' hs (hv'.trans heq)
      · exact h.frames name f hname v' hs' hv'

theorem Ok.labels_eq (h : m.Ok) (v : ExecutionView) :
    ∃ m', ProjectionMemo.labels (some m) v true = (some m', projectionLabels v true) ∧ m'.Ok := by
  unfold ProjectionMemo.labels
  by_cases htags : 0 < (launchTags v).size
  · exact ⟨m, if_pos (.inr htags), h⟩
  · have hplain : ¬ (true = false ∨ 0 < (launchTags v).size) := fun hor => hor.elim nofun htags
    simp only [if_neg hplain]
    cases hf : m.labelMemo.find? (labelKey v) with
    | some l =>
      refine ⟨m, ?_, h⟩
      rw [h.labels _ l hf v htags rfl]
    | none =>
      refine ⟨_, rfl, ⟨h.frames, fun k l hk v' htags' hv' => ?_⟩⟩
      rw [AssocMap.find?_put] at hk
      split at hk
      · next heq =>
          cases hk
          exact projectionLabels_congr htags' htags (hv'.trans heq)
      · exact h.labels k l hk v' htags' hv'

end ProjectionMemo

/-! ## In step -/

structure InStep (p q : Projection) : Prop where
  memo : ∃ m : ProjectionMemo, p.memo = some m ∧ m.Ok
  plain : q.memo = none
  budget : p.budget = q.budget
  samples : p.samples = q.samples

theorem InStep.addPCSample {p q : Projection} (h : InStep p q) (i : Nat) (v : ExecutionView)
    (frames : List Pprof.Frame) (common : Labels) (pc : GPUPCSample × Resolution × UInt64) :
    InStep (p.addPCSample i v frames common pc) (q.addPCSample i v frames common pc) := by
  refine ⟨h.memo, h.plain, ?_, ?_⟩
  · unfold Projection.addPCSample
    rw [h.budget]
  · unfold Projection.addPCSample
    rw [h.budget, h.samples]

theorem InStep.foldl {p q : Projection} (h : InStep p q) (i : Nat) (v : ExecutionView) (frames : List Pprof.Frame)
    (common : Labels) (pcs : List (GPUPCSample × Resolution × UInt64)) :
    InStep (pcs.foldl (Projection.addPCSample i v frames common) p)
      (pcs.foldl (Projection.addPCSample i v frames common) q) := by
  induction pcs generalizing p q with
  | nil => exact h
  | cons pc pcs ih => exact ih (h.addPCSample i v frames common pc)

theorem InStep.addView {p q : Projection} (h : InStep p q) (answers : Nat → Nat → Resolution)
    (v : ExecutionView × Nat) :
    (p.addView true answers v = none ∧ q.addView true answers v = none) ∨
      ∃ p' q', p.addView true answers v = some p' ∧ q.addView true answers v = some q' ∧ InStep p' q' := by
  obtain ⟨m, hm, hok⟩ := h.memo
  obtain ⟨m₁, hframes, hok₁⟩ := hok.frames_eq v.1
  obtain ⟨m₂, hlabels, hok₂⟩ := hok₁.labels_eq v.1
  have hnext : InStep { p with memo := some m₂ } { q with memo := none } :=
    ⟨⟨m₂, rfl, hok₂⟩, rfl, h.budget, h.samples⟩
  unfold Projection.addView
  rw [hm, h.plain, hframes]
  simp only [hlabels]
  simp only [ProjectionMemo.frames, ProjectionMemo.labels]
  by_cases hnil : v.1.pcSamples = []
  · simp only [if_pos hnil]
    refine .inr ⟨_, _, rfl, rfl, ⟨m₂, rfl, hok₂⟩, rfl, h.budget, ?_⟩
    exact congrArg (· ++ _) h.samples
  · simp only [if_neg hnil]
    cases distributeExecutionWeight (executionWeight v.1.exec) (v.1.pcSamples.map Emission.sample) with
    | none => exact .inl ⟨rfl, rfl⟩
    | some ws => exact .inr ⟨_, _, rfl, rfl, hnext.foldl ..⟩

theorem InStep.foldlM {p q : Projection} (h : InStep p q) (answers : Nat → Nat → Resolution)
    (vs : List (ExecutionView × Nat)) :
    (vs.foldlM (Projection.addView true answers) p).map (fun p => (p.samples, p.budget)) =
      (vs.foldlM (Projection.addView true answers) q).map fun p => (p.samples, p.budget) := by
  induction vs generalizing p q with
  | nil =>
    change some (p.samples, p.budget) = some (q.samples, q.budget)
    rw [h.samples, h.budget]
  | cons v vs ih =>
    rw [List.foldlM_cons, List.foldlM_cons]
    rcases h.addView answers v with ⟨hp, hq⟩ | ⟨p', q', hp, hq, h'⟩
    · rw [hp, hq]
    · rw [hp, hq]
      exact ih h'

/-- Projecting with the memo is projecting without it: the same samples in the same order, with the
same stacks, labels and values, and the same budget afterwards. -/
theorem memoised_projection (answers : Nat → Nat → Resolution) (budget : PCLabelBudget) (snap : Snapshot) :
    projectExecutionsWith true answers budget snap = projectExecutionsPlain true answers budget snap := by
  have h : InStep { memo := some {}, budget := budget } { memo := none, budget := budget } :=
    ⟨⟨{}, rfl, ProjectionMemo.ok_empty⟩, rfl, rfl, rfl⟩
  exact h.foldlM answers _

end PerfAgent.Gpu
