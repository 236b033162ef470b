import PerfAgent.Gpu.Shares

/-!
# When the shares are exact

`distributeExecutionWeight` adds the counts of the PC samples in 64 bits and divides by the
sum.  Where the sum wraps, the divisor is not the total: the division may panic, and where it
does not, the shares are of something else.  So the weight of an execution is conserved
exactly if the counts fit, and that is a matter of what the device reported.
-/

namespace PerfAgent.Gpu

/-- The shares before the rest is handed out, if no division panics. -/
def roundedShares (execWeight : UInt64) (pcs : List GPUPCSample) : Option (List UInt64) :=
  let counts := pcs.map pcCount
  let totalCount := counts.foldl (· + ·) 0
  counts.mapM fun c => div64 (mul64 execWeight c).1 (mul64 execWeight c).2 totalCount

/-- The additions in 64 bits are additions: of the counts, of the shares, and of the rest to
the last share. -/
structure NoWrap (execWeight : UInt64) (pcs : List GPUPCSample) : Prop where
  total : ((pcs.map pcCount).foldl (· + ·) 0).toNat = natSum (pcs.map pcCount)
  distributed : ∀ ws, roundedShares execWeight pcs = some ws → (ws.foldl (· + ·) 0).toNat = natSum ws
  residue : ∀ ws last, roundedShares execWeight pcs = some ws → ws.getLast? = some last →
    ws.foldl (· + ·) 0 < execWeight →
    last.toNat + (execWeight - ws.foldl (· + ·) 0).toNat < 2 ^ 64

/-- The weight is handed out without a panic or a wrap, a share to each sample, and all of
it. -/
def DistributesExactly (execWeight : UInt64) (pcs : List GPUPCSample) : Prop :=
  NoWrap execWeight pcs ∧ ∃ ws, distributeExecutionWeight execWeight pcs = some ws ∧
    ws.length = pcs.length ∧ natSum ws = execWeight.toNat

/-- A view is projected without a panic or a wrap, and the values of its samples come to the
weight of its execution. -/
def ProjectsExactly (omitCorrelation : Bool) (answers : Nat → Nat → Resolution) (p : Projection)
    (v : ExecutionView × Nat) : Prop :=
  NoWrap (executionWeight v.1.exec) (v.1.pcSamples.map Emission.sample) ∧
    ∃ p' new, p.addView omitCorrelation answers v = some p' ∧ p'.samples = p.samples ++ new ∧
      natSum (new.map fun s => s.1.value) = (executionWeight v.1.exec).toNat

variable {pcs : List GPUPCSample}

theorem countsFit_of_total (h : ((pcs.map pcCount).foldl (· + ·) 0).toNat = natSum (pcs.map pcCount)) :
    CountsFit pcs := by
  unfold CountsFit
  rw [← h]
  exact UInt64.toNat_lt _

theorem CountsFit.total (h : CountsFit pcs) : ((pcs.map pcCount).foldl (· + ·) 0).toNat = natSum (pcs.map pcCount) := by
  have hzero : (0 : UInt64).toNat = 0 := rfl
  rw [toNat_foldl_add _ _ (by rw [hzero, Nat.zero_add]; exact h), hzero, Nat.zero_add]

theorem CountsFit.roundedShares {pcs : List GPUPCSample} (h : CountsFit pcs) (execWeight : UInt64) :
    ∃ ws, Gpu.roundedShares execWeight pcs = some ws ∧ natSum ws ≤ execWeight.toNat := by
  have htotal := h.total
  cases pcs with
  | nil => exact ⟨[], rfl, Nat.zero_le _⟩
  | cons pc pcs =>
    have hpos : 0 < natSum ((pc :: pcs).map pcCount) := by
      rw [List.map_cons, natSum_cons]
      exact Nat.add_pos_left (pcCount_pos pc) _
    obtain ⟨ws, hws, hvalues⟩ := mapM_div64 execWeight (htotal ▸ hpos) (fun c hc => htotal ▸ le_natSum hc)
    refine ⟨ws, hws, ?_⟩
    unfold natSum
    rw [hvalues, htotal]
    exact sum_floors_le hpos

theorem noWrap_iff {execWeight : UInt64} : NoWrap execWeight pcs ↔ CountsFit pcs := by
  refine ⟨fun h => countsFit_of_total h.total, fun h => ?_⟩
  obtain ⟨ws, hws, hle⟩ := h.roundedShares execWeight
  have hlt := execWeight.toNat_lt
  have hzero : (0 : UInt64).toNat = 0 := rfl
  have hdist : (ws.foldl (· + ·) 0).toNat = natSum ws := by
    rw [toNat_foldl_add _ _ (by rw [hzero]; omega), hzero, Nat.zero_add]
  refine ⟨h.total, fun ws' hws' => ?_, fun ws' last hws' hlast hless => ?_⟩
  · rw [hws, Option.some.injEq] at hws'
    rw [← hws']
    exact hdist
  · rw [hws, Option.some.injEq] at hws'
    subst hws'
    rw [UInt64.toNat_sub_of_le _ _ (UInt64.le_of_lt hless), hdist]
    have := le_natSum (List.mem_of_getLast? hlast)
    omega

/-- The weight is conserved exactly when the counts fit; that nothing can be handed out to no
samples matters to no caller. -/
theorem distributesExactly_iff (execWeight : UInt64) (pcs : List GPUPCSample) :
    DistributesExactly execWeight pcs ↔ CountsFit pcs ∧ (pcs = [] → execWeight = 0) := by
  unfold DistributesExactly
  rw [noWrap_iff]
  refine and_congr_right fun hfit => ?_
  by_cases hnil : pcs = []
  · subst hnil
    constructor
    · rintro ⟨ws, hws, -, hsum⟩ -
      cases hws
      exact UInt64.toNat_inj.mp hsum.symm
    · intro h
      rw [h rfl]
      exact ⟨[], rfl, rfl, rfl⟩
  · simp only [hnil, false_imp_iff, iff_true]
    exact distributeExecutionWeight_spec execWeight hnil hfit

theorem projectsExactly_iff (omitCorrelation : Bool) (answers : Nat → Nat → Resolution)
    (p : Projection) (v : ExecutionView × Nat) :
    ProjectsExactly omitCorrelation answers p v ↔ v.1.CountsFit := by
  unfold ProjectsExactly
  rw [noWrap_iff]
  refine ⟨fun h => h.1, fun hfit => ⟨hfit, ?_⟩⟩
  obtain ⟨ws, hws, hsum⟩ := ExecutionView.CountsFit.shares hfit
  rcases addView_spec omitCorrelation answers p v with ⟨hnone, -⟩ | ⟨ws', p', new, hws', hp', hnew, hmap, -⟩
  · rw [hws] at hnone
    cases hnone
  · rw [hws, Option.some.injEq] at hws'
    subst hws'
    refine ⟨p', new, hp', hnew, ?_⟩
    have hvalues : new.map (fun s => s.1.value) = ws := by
      have := congrArg (List.map Prod.snd) hmap
      simpa [Function.comp_def, claimOf] using this
    rw [hvalues, hsum]

/-- The weight of an execution is conserved, by the distribution and by the projection of a
view, exactly when the counts of the PC samples fit 64 bits. -/
theorem weight_conserved_iff (execWeight : UInt64) (pcs : List GPUPCSample) :
    (DistributesExactly execWeight pcs ↔ CountsFit pcs ∧ (pcs = [] → execWeight = 0)) ∧
      ∀ omitCorrelation answers p v, ProjectsExactly omitCorrelation answers p v ↔ v.1.CountsFit :=
  ⟨distributesExactly_iff execWeight pcs, projectsExactly_iff⟩

/-- Two counts whose sum is `2 ^ 64` are a total of zero, and the division panics. -/
theorem not_weight_conserved : distributeExecutionWeight 7 [{ count := 2 ^ 63 }, { count := 2 ^ 63 }] = none ∧
      ¬∀ execWeight pcs, pcs ≠ [] → DistributesExactly execWeight pcs := by
  have hpanic : distributeExecutionWeight 7 [{ count := 2 ^ 63 }, { count := 2 ^ 63 }] = none := by
    decide +kernel
  refine ⟨hpanic, fun h => ?_⟩
  obtain ⟨-, ws, hws, -⟩ := h 7 [{ count := 2 ^ 63 }, { count := 2 ^ 63 }] (by simp)
  rw [hpanic] at hws
  cases hws

end PerfAgent.Gpu
