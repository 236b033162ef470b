import PerfAgent.Gpuprofile.Profiler
import PerfAgent.Gpu.Shares
import PerfAgent.Gpu.ExeclogRoundTrip

/-!
# What the executions log says about the profile

A row is written for every sample that a drain projects, with the index that the builder has put it under.  So
the rows of an execution are its shares, in the order of the ledger, and the rows that name a sample of the
profile are what was added to it.  The three are kept in step by the samples of one drain, and over drains by
the count of the executions.
-/

namespace PerfAgent.Gpuprofile

open Gpu Gpu.Execlog List

/-! ## What a sample is worth -/

def rowsSum (rows : List Row) (i : Nat) : ℕ := natSum ((rows.filter fun r => r.sample.toNat = i).map Row.value)

theorem rowsSum_concat (rows : List Row) (r : Row) (i : Nat) :
    rowsSum (rows ++ [r]) i = rowsSum rows i + if r.sample.toNat = i then r.value.toNat else 0 := by
  unfold rowsSum
  rw [filter_append, map_append, natSum_append]
  by_cases h : r.sample.toNat = i
  · simp [h]
  · simp [h]

def wrapped (n : ℕ) : Int64 := (UInt64.ofNat n).toInt64

theorem wrapped_add (n : ℕ) (v : UInt64) : wrapped n + v.toInt64 = wrapped (n + v.toNat) := by
  have hv : v = UInt64.ofNat v.toNat := (UInt64.ofNat_toNat).symm
  unfold wrapped
  rw [UInt64.ofNat_add, ← hv]
  rfl

/-- The builder knows its samples, and each is worth what `sums` says. -/
structure Worth (sums : Nat → ℕ) (b : Pprof.ProfileBuilder) : Prop where
  hash : ∀ h i, b.sampleHashToSample.find? h = some i → i < b.sample.length
  value : ∀ i s, b.sample[i]? = some s → s.value = [wrapped (sums i)]
  beyond : ∀ i, b.sample.length ≤ i → sums i = 0

theorem value_addValue (opt : Pprof.Options) {s : Pprof.ProfileSample} (hgpu : s.sampleType = .gpu)
    {sample : Pprof.Sample} {n : ℕ} (h : sample.value = [wrapped n]) :
    (opt.addValue s sample).value = [wrapped (n + s.value.toNat)] := by
  unfold Pprof.Options.addValue
  rw [hgpu, h]
  show [wrapped n + s.value.toInt64] = _
  rw [wrapped_add]

theorem value_newSample (opt : Pprof.Options) {s : Pprof.ProfileSample} (hgpu : s.sampleType = .gpu)
    (locations : List Pprof.Location) : (opt.newSample s locations).value = [wrapped 0] := by
  unfold Pprof.Options.newSample
  rw [hgpu]
  rfl

section

variable (opt : Pprof.Options) (b : Pprof.ProfileBuilder) {s : Pprof.ProfileSample}

def hashFor (s : Pprof.ProfileSample) : UInt64 :=
  opt.sampleHash ((Pprof.addStack opt.resolver s.pid b.interned s.stack).2.map Pprof.Location.id) s.labels

theorem addSample_of_some (hagg : s.aggregated = false) {i : Nat}
    (h : b.sampleHashToSample.find? (hashFor opt b s) = some i) :
    (b.addSample opt s).2 = i ∧ (b.addSample opt s).1.sample = b.sample.modify i (opt.addValue s) ∧
      (b.addSample opt s).1.sampleHashToSample = b.sampleHashToSample := by
  unfold hashFor at h
  unfold Pprof.ProfileBuilder.addSample Pprof.ProfileBuilder.createSampleOrAddValue
  rw [if_neg (by rw [hagg]; exact Bool.false_ne_true)]
  dsimp only
  rw [h]
  exact ⟨rfl, rfl, rfl⟩

theorem addSample_of_none (hagg : s.aggregated = false) (h : b.sampleHashToSample.find? (hashFor opt b s) = none) :
    ∃ locations, (b.addSample opt s).2 = b.sample.length ∧
      (b.addSample opt s).1.sample = b.sample ++ [opt.addValue s (opt.newSample s locations)] ∧
      (b.addSample opt s).1.sampleHashToSample = b.sampleHashToSample.put (hashFor opt b s) b.sample.length := by
  refine ⟨(Pprof.addStack opt.resolver s.pid b.interned s.stack).2, ?_⟩
  unfold hashFor at h ⊢
  unfold Pprof.ProfileBuilder.addSample Pprof.ProfileBuilder.createSampleOrAddValue
  rw [if_neg (by rw [hagg]; exact Bool.false_ne_true)]
  dsimp only
  rw [h]
  exact ⟨rfl, rfl, rfl⟩

end

theorem Worth.addSample {sums : Nat → ℕ} {b : Pprof.ProfileBuilder} (h : Worth sums b) (opt : Pprof.Options)
    {s : Pprof.ProfileSample} (hagg : s.aggregated = false) (hgpu : s.sampleType = .gpu) :
    (b.addSample opt s).2 < (b.addSample opt s).1.sample.length ∧
      b.sample.length ≤ (b.addSample opt s).1.sample.length ∧
      Worth (fun i => sums i + if (b.addSample opt s).2 = i then s.value.toNat else 0) (b.addSample opt s).1 := by
  cases hfind : b.sampleHashToSample.find? (hashFor opt b s) with
  | some index =>
    obtain ⟨hidx, hsample, hmap⟩ := addSample_of_some opt b hagg hfind
    have hindex := h.hash _ index hfind
    have hlen : (b.addSample opt s).1.sample.length = b.sample.length := by
      rw [hsample]
      exact length_modify ..
    rw [hidx, hlen]
    refine ⟨hindex, Nat.le_refl _, ?_, ?_, ?_⟩
    · intro k i hk
      rw [hmap] at hk
      rw [hlen]
      exact h.hash k i hk
    · intro i sample hi
      rw [hsample, getElem?_modify] at hi
      obtain ⟨old, hold, heq⟩ := Option.map_eq_some_iff.mp hi
      by_cases hi : index = i
      · rw [if_pos hi] at heq ⊢
        rw [← heq]
        exact value_addValue opt hgpu (h.value i old hold)
      · rw [if_neg hi] at heq ⊢
        rw [← heq]
        exact h.value i old hold
    · intro i hi
      rw [hlen] at hi
      rw [h.beyond i hi, if_neg (by omega)]
  | none =>
    obtain ⟨locations, hidx, hsample, hmap⟩ := addSample_of_none opt b hagg hfind
    have hlen : (b.addSample opt s).1.sample.length = b.sample.length + 1 := by
      rw [hsample]
      exact List.length_append ..
    rw [hidx, hlen]
    refine ⟨Nat.lt_succ_self _, Nat.le_succ _, ?_, ?_, ?_⟩
    · intro k i hk
      rw [hmap, AssocMap.find?_put] at hk
      rw [hlen]
      split at hk
      · cases hk
        exact Nat.lt_succ_self _
      · exact Nat.lt_succ_of_lt (h.hash k i hk)
    · intro i sample hi
      rw [hsample, getElem?_append] at hi
      split at hi
      · next hlt =>
          rw [if_neg (Nat.ne_of_gt hlt)]
          exact h.value i sample hi
      · next hge =>
          have heq : b.sample.length = i := by
            have hlt := (List.getElem?_eq_some_iff.mp hi).1
            rw [length_singleton] at hlt
            omega
          subst heq
          rw [Nat.sub_self] at hi
          cases hi
          rw [if_pos rfl, h.beyond _ (Nat.le_refl _)]
          exact value_addValue opt hgpu (value_newSample opt hgpu _)
    · intro i hi
      rw [hlen] at hi
      rw [h.beyond i (by omega), if_neg (by omega)]

/-! ## One row -/

/-- The log is open, its rows are worth what `pairs` says, and name what was added to the builder. -/
structure Logged (h : Header) (pairs : List (Nat × UInt64)) (p : Profiler) : Prop where
  log : p.execLog = some (written h p.rows)
  pairs : p.rows.map (fun r => (r.execution.toNat, r.value)) = pairs
  index : ∀ r ∈ p.rows, r.sample.toNat < p.builder.sample.length
  worth : Worth (rowsSum p.rows) p.builder

theorem addRow_of_isSome {p : Profiler} {w : Writer} {row : Row} (h : (p.addRow w row).execLog.isSome) :
    p.addRow w row = { p with execLog := some (w.add row), rows := p.rows ++ [row] } := by
  unfold Profiler.addRow at h ⊢
  cases herr : (w.add row).err with
  | some err =>
    simp only [herr] at h
    cases h
  | none => simp only [herr]

theorem logRow_of_isSome {p : Profiler} {w : Writer} {sample : Nat} {execution : UInt64} {corr : CorrelationID}
    {value : UInt64} (h : (p.logRow w sample execution corr value).execLog.isSome) :
    ∃ row : Row, row.sample.toNat = sample ∧ row.execution = execution ∧ row.value = value ∧
      p.logRow w sample execution corr value = { p with execLog := some (w.add row), rows := p.rows ++ [row] } := by
  unfold Profiler.logRow at h ⊢
  by_cases hrange : 2 ^ 32 - 1 < sample
  · rw [if_pos hrange] at h
    cases h
  · rw [if_neg hrange] at h ⊢
    have hsample : (UInt32.ofNat sample).toNat = sample := UInt32.toNat_ofNat_of_lt' (by show _ < 2 ^ 32; omega)
    by_cases hpresent : corr.present = true
    · rw [if_pos hpresent] at h ⊢
      cases hparse : parseUint64 corr.value with
      | none =>
        simp only [hparse] at h
        cases h
      | some v =>
        simp only [hparse] at h ⊢
        by_cases hbackend : corr.backend ≠ backendCUPTI
        · rw [if_pos hbackend] at h
          cases h
        · rw [if_neg hbackend] at h ⊢
          exact ⟨_, hsample, rfl, rfl, addRow_of_isSome h⟩
    · rw [if_neg hpresent] at h ⊢
      exact ⟨_, hsample, rfl, rfl, addRow_of_isSome h⟩

variable {cfg : Config} {snap : Snapshot} {base : UInt64} {h : Header} {pairs : List (Nat × UInt64)} {p : Profiler}
  {s : Pprof.ProfileSample × Nat}

theorem Logged.drainSample (hp : Logged h pairs p) (hgpu : s.1.sampleType = .gpu)
    (hlt : base.toNat + s.2 < 2 ^ 64) (hlog : (p.drainSample cfg snap base s).execLog.isSome) :
    Logged h (pairs ++ [(base.toNat + s.2, s.1.value)]) (p.drainSample cfg snap base s) := by
  obtain ⟨hidx, hle, hworth⟩ := hp.worth.addSample cfg.builder (s := { s.1 with aggregated := false }) rfl hgpu
  unfold Profiler.drainSample at hlog ⊢
  simp only [hp.log] at hlog ⊢
  obtain ⟨row, hsample, hexecution, hvalue, heq⟩ := logRow_of_isSome hlog
  rw [heq]
  refine ⟨?_, ?_, ?_, ?_⟩
  · show some _ = some (written h (p.rows ++ [row]))
    rw [written_concat]
  · have hordinal : (base + UInt64.ofNat s.2).toNat = base.toNat + s.2 := by
      have hs : (UInt64.ofNat s.2).toNat = s.2 := UInt64.toNat_ofNat_of_lt' (by show _ < 2 ^ 64; omega)
      rw [toNat_add_of_lt (by rw [hs]; exact hlt), hs]
    show (p.rows ++ [row]).map _ = _
    rw [map_append, hp.pairs, map_singleton, hexecution, hvalue, hordinal]
  · intro r hr
    rcases mem_append.mp hr with hr | hr
    · exact Nat.lt_of_lt_of_le (hp.index r hr) hle
    · rw [mem_singleton.mp hr, hsample]
      exact hidx
  · have hsums : rowsSum (p.rows ++ [row]) = fun i => rowsSum p.rows i +
        if (p.builder.addSample cfg.builder { s.1 with aggregated := false }).2 = i then s.1.value.toNat else 0 := by
      funext i
      rw [rowsSum_concat, hsample, hvalue]
    show Worth (rowsSum (p.rows ++ [row])) _
    rw [hsums]
    exact hworth

/-! ## Drains -/

variable (ss : List (Pprof.ProfileSample × Nat))

variable {views : List ExecutionView}

end PerfAgent.Gpuprofile
