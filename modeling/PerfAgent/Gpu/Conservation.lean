import PerfAgent.Gpu.LaunchJoin
import PerfAgent.Gpu.SnapshotJoin
import PerfAgent.Gpu.TimelineRun

/-!
# No PC sample is lost or attached twice

Every `EmitPCSample` call of a run is accounted for: its sample is attached to one
execution, or waits in one of the two stores, or was counted as evicted from one of them.
The invariant `Conserved` is one equation between multisets of emissions; the counts, and
that nothing is attached twice, are read off it.
-/

namespace PerfAgent.Gpu

open List

/-- The sample an action hands over, if it is an `EmitPCSample`. -/
def Action.pcSample? : Action → Option GPUPCSample
  | .call (.pcSample p) => some p
  | _ => none

/-- The samples handed over in a run, with the numbers of their calls. -/
def emissions (as : List Action) : List Emission :=
  (as.filterMap Action.pcSample?).zipIdx.map fun p => ⟨p.1, p.2⟩

def Snapshot.attached (s : Snapshot) : List Emission :=
  s.executions.flatMap ExecutionView.pcSamples

/-- The samples attached by the snapshot in flight: to the views it has produced, and to
the executions it has still to join. -/
def Phase.attached : Phase → List Emission
  | .joining _ _ j => j.views.flatMap ExecutionView.pcSamples ++ samplesOf j.rest
  | _ => []

def System.attached (s : System) : List Emission :=
  s.taken.flatMap Snapshot.attached ++ s.phase.attached

/-! ## The numbers of the calls -/

theorem emissions_snoc_of_none {a : Action} (h : a.pcSample? = none) (as : List Action) :
    emissions (as ++ [a]) = emissions as := by
  simp [emissions, h]

theorem emissions_snoc_pcSample (as : List Action) (p : GPUPCSample) : emissions (as ++ [.call (.pcSample p)]) =
      emissions as ++ [⟨p, (as.filterMap Action.pcSample?).length⟩] := by
  simp [emissions, Action.pcSample?, zipIdx_append]

theorem length_emissions (as : List Action) : (emissions as).length = as.countP fun a => a.pcSample?.isSome := by
  rw [emissions, length_map, length_zipIdx, length_filterMap_eq_countP]

theorem nodup_emissions (as : List Action) : ((emissions as).map Emission.number).Nodup := by
  have : (emissions as).map Emission.number = List.range' 0 (as.filterMap Action.pcSample?).length := by
    rw [emissions, map_map]
    exact zipIdx_map_snd 0 _
  rw [this]
  exact nodup_range'

/-! ## The invariant -/

structure Conserved (as : List Action) (s : System) : Prop where
  calls : s.pcCalls = (as.filterMap Action.pcSample?).length
  pending : s.timeline.pending.Sound exactKey
  pendingModule : s.timeline.pendingModule.Sound moduleKey
  balance : ∃ lost lostModule : Multiset Emission, lost.card = s.timeline.dropped.evictedPendingSamples ∧
    lostModule.card = s.timeline.dropped.evictedPendingModuleSamples ∧
    (s.attached : Multiset Emission) + (s.timeline.pending.held + s.timeline.pendingModule.held) +
      (lost + lostModule) = emissions as

theorem conserved_new (cfg : TimelineConfig) : Conserved [] (System.new cfg) where
  calls := rfl
  pending := PendingIndex.sound_empty
  pendingModule := PendingIndex.sound_empty
  balance := ⟨0, 0, rfl, rfl, rfl⟩

variable {as : List Action}

theorem Conserved.frame {s s' : System} {a : Action} (h : Conserved as s) (ha : a.pcSample? = none)
    (hc : s'.pcCalls = s.pcCalls) (hp : s'.timeline.pending = s.timeline.pending)
    (hm : s'.timeline.pendingModule = s.timeline.pendingModule)
    (hd : s'.timeline.dropped.evictedPendingSamples = s.timeline.dropped.evictedPendingSamples)
    (hd' : s'.timeline.dropped.evictedPendingModuleSamples =
      s.timeline.dropped.evictedPendingModuleSamples) (hat : s'.attached = s.attached) : Conserved (as ++ [a]) s' where
  calls := by rw [hc, h.calls]; simp [ha]
  pending := hp ▸ h.pending
  pendingModule := hm ▸ h.pendingModule
  balance := by
    obtain ⟨lost, lostModule, hl, hl', heq⟩ := h.balance
    exact ⟨lost, lostModule, by rw [hd, hl], by rw [hd', hl'], by
      rw [hat, hp, hm, emissions_snoc_of_none ha, heq]⟩

theorem balance_emit {a m l p p' x e : Multiset Emission} (h : p + e = p' + x) :
    a + (p' + m) + (l + x) = a + (p + m) + l + e := by
  have hx : a + (p' + m) + (l + x) = a + m + l + (p' + x) := by abel
  rw [hx, ← h]
  abel

theorem Conserved.pcSample {as : List Action} {s : System} (h : Conserved as s) (p : GPUPCSample) :
    Conserved (as ++ [.call (.pcSample p)]) { s with
      timeline := s.timeline.emitPCSample ⟨p, s.pcCalls⟩
      pcCalls := s.pcCalls + 1 } := by
  obtain ⟨lost, lostModule, hl, hl', heq⟩ := h.balance
  have hcalls : s.pcCalls + 1 = ((as ++ [Action.call (.pcSample p)]).filterMap Action.pcSample?).length := by
    simp [h.calls, Action.pcSample?]
  have hem : (emissions (as ++ [.call (.pcSample p)]) : Multiset Emission) = emissions as + {⟨p, s.pcCalls⟩} := by
    rw [emissions_snoc_pcSample, ← Multiset.coe_add, h.calls]
    rfl
  obtain ⟨newest, ht⟩ := s.timeline.emitPCSample_eq ⟨p, s.pcCalls⟩
  rw [ht]
  cases hpres : p.correlation.present with
  | true =>
    obtain ⟨hs, new, hnew, hheld⟩ := h.pending.emit s.timeline.pendingCap
      s.timeline.pendingSampleCap newest s.timeline.pendingHorizonNs
      (e := ⟨p, s.pcCalls⟩) (k := p.correlation) (exactKey_eq_some.mpr ⟨hpres, rfl⟩)
    refine ⟨hcalls, hs, h.pendingModule, lost + new, lostModule, ?_, hl', ?_⟩
    · rw [Multiset.card_add, hl, hnew]
      rfl
    · rw [hem, ← heq, add_right_comm lost]
      exact balance_emit hheld
  | false =>
    obtain ⟨hs, new, hnew, hheld⟩ := h.pendingModule.emit s.timeline.pendingModuleCap
      s.timeline.pendingSampleCap newest s.timeline.pendingHorizonNs
      (e := ⟨p, s.pcCalls⟩) (k := pendingModuleKeyFor p)
      (moduleKey_eq_some.mpr ⟨hpres, rfl⟩)
    refine ⟨hcalls, h.pending, hs, lost, lostModule + new, hl, ?_, ?_⟩
    · rw [Multiset.card_add, hl', hnew]
      rfl
    · rw [hem, ← heq, ← add_assoc lost, add_comm s.timeline.pending.held]
      change s.attached + (s.timeline.pending.held + _) + _ = _
      rw [add_comm s.timeline.pending.held]
      exact balance_emit hheld

theorem Conserved.call {as : List Action} {s : System} (h : Conserved as s) (c : Call) :
    Conserved (as ++ [.call c]) { s with
      timeline := s.timeline.call s.pcCalls c
      pcCalls := s.pcCalls + (System.isPCSample c).toNat } := by
  cases c with
  | pcSample p => exact h.pcSample p
  | launch l => exact h.frame rfl rfl rfl rfl rfl rfl rfl
  | exec e =>
    obtain ⟨d, m, n, p, ht⟩ := s.timeline.emitExec_eq e
    simp only [Timeline.call, ht]
    exact h.frame rfl rfl rfl rfl rfl rfl rfl
  | module m =>
    obtain ⟨p, ht⟩ := s.timeline.emitModule_eq m
    simp only [Timeline.call, ht]
    exact h.frame rfl rfl rfl rfl rfl rfl rfl
  | event e =>
    obtain ⟨p, ht⟩ := s.timeline.emitEvent_eq e
    simp only [Timeline.call, ht]
    exact h.frame rfl rfl rfl rfl rfl rfl rfl
  | samplingWindow w => exact h.frame rfl rfl rfl rfl rfl rfl rfl
  | graphExecutions g =>
    obtain ⟨b, t, p, u, n, a, ht⟩ := s.timeline.emitGraphExecutions_eq g
    simp only [Timeline.call, ht]
    exact h.frame rfl rfl rfl rfl rfl rfl rfl
  | receivePressure => exact h.frame rfl rfl rfl rfl rfl rfl rfl

theorem System.attached_join {s : System} {d : Drained} {c : Collected} {j j' : Joining}
    {cache : LaunchCache} (hp : s.phase = .joining d c j)
    (hj : j.joinExec s.timeline.cache s.timeline.joinWindowNs = some (j', cache)) :
    System.attached { s with
      timeline := { s.timeline with cache := cache }, phase := .joining d c j' } = s.attached := by
  obtain ⟨r, v, hr⟩ := Joining.joinExec_spec hj
  have hv : v.pcSamples = r.samples := by rw [hr.view]; rfl
  simp only [System.attached, Phase.attached, hp, hr.rest, hr.views, samplesOf_cons,
    flatMap_append, flatMap_cons, flatMap_nil, append_nil, hv,
    append_assoc]

theorem System.attached_finish {s : System} {d : Drained} {c : Collected} {j : Joining}
    (hp : s.phase = .joining d c j) (hr : j.rest = []) :
    System.attached { s with
      taken := s.taken ++ [finishSnapshot d c j s.timeline.cache], phase := .idle } =
        s.attached := by
  simp [System.attached, Phase.attached, hp, hr, Snapshot.attached, finishSnapshot]

theorem Conserved.step {as : List Action} {s s' : System} {a : Action} (h : Conserved as s)
    (hs : System.Step s a s') : Conserved (as ++ [a]) s' := by
  cases hs with
  | call c => exact h.call c
  | begin hp => exact h.frame rfl rfl rfl rfl rfl rfl (by simp [System.attached, hp, Phase.attached])
  | @collect d functionName hp =>
    have hc := collectLocked_spec h.pending h.pendingModule functionName d.execs
    obtain ⟨lost, lostModule, hl, hl', heq⟩ := h.balance
    have hn : (Action.snapshotCollect functionName).pcSample? = none := rfl
    refine ⟨by simp [h.calls, hn], hc.pending, hc.pendingModule, lost, lostModule, hl, hl', ?_⟩
    rw [emissions_snoc_of_none rfl, ← heq, hc.held]
    -- what the rows took is what the stores gave up
    simp only [System.attached, Phase.attached, hp, startJoining, flatMap_nil,
      nil_append, append_nil, ← Multiset.coe_add]
    abel
  | read order hp hn ho =>
    refine h.frame rfl rfl rfl rfl rfl rfl ?_
    simp only [System.attached, Phase.attached, hp]
  | join hp hj => exact h.frame rfl rfl rfl rfl rfl rfl (System.attached_join hp hj)
  | finish hp hr => exact h.frame rfl rfl rfl rfl rfl rfl (System.attached_finish hp hr)

theorem conserved_of_reaches {cfg : TimelineConfig} {s : System} (h : System.Reaches cfg as s) : Conserved as s :=
  h.invariant (conserved_new cfg) fun _ _ _ _ _ hi hs => hi.step hs

theorem Conserved.count {s : System} (h : Conserved as s) : (as.countP fun a => a.pcSample?.isSome) =
      s.attached.length + s.timeline.pending.sampleTotal + s.timeline.pendingModule.sampleTotal +
        s.timeline.dropped.evictedPendingSamples +
        s.timeline.dropped.evictedPendingModuleSamples := by
  obtain ⟨lost, lostModule, hl, hl', heq⟩ := h.balance
  have hcard := congrArg Multiset.card heq
  simp only [Multiset.card_add, Multiset.coe_card, h.pending.card_held, h.pendingModule.card_held, hl, hl'] at hcard
  rw [← length_emissions]
  omega

/-! ## Conservation -/

/-- PC-sample conservation.  In every state of every run, the `EmitPCSample` calls so far
are the samples attached to executions by snapshots, plus those held in each store, plus
those each store's counter counts as evicted; the running totals are the sums they
summarise; and what is attached was handed over, each by a call of its own. -/
theorem sample_conservation {cfg : TimelineConfig} {as : List Action} {s : System} (h : System.Reaches cfg as s) :
    (as.countP fun a => a.pcSample?.isSome) = s.attached.length +
        (s.timeline.pending.store.byKey.sum fun v => v.samples.length) +
        (s.timeline.pendingModule.store.byKey.sum fun v => v.samples.length) +
        s.timeline.dropped.evictedPendingSamples +
        s.timeline.dropped.evictedPendingModuleSamples ∧
      s.timeline.pending.sampleTotal = (s.timeline.pending.store.byKey.sum fun v => v.samples.length) ∧
      s.timeline.pendingModule.sampleTotal = (s.timeline.pendingModule.store.byKey.sum fun v => v.samples.length) ∧
      (∀ e ∈ s.attached, e ∈ emissions as) ∧ (s.attached.map Emission.number).Nodup := by
  have hc := conserved_of_reaches h
  obtain ⟨lost, lostModule, hl, hl', heq⟩ := hc.balance
  have hle : (s.attached : Multiset Emission) ≤ emissions as := by
    rw [← heq, add_assoc]
    exact Multiset.le_add_right _ _
  refine ⟨?_, hc.pending.total, hc.pendingModule.total, ?_, ?_⟩
  · rw [← hc.pending.total, ← hc.pendingModule.total]
    exact hc.count
  · intro e he
    exact Multiset.mem_of_le hle he
  · have hmap := Multiset.map_le_map (f := Emission.number) hle
    exact Multiset.nodup_of_le hmap (nodup_emissions as)

/-- Three samples: one loses its group's place in a store of one, one is attached to the
execution of its correlation, and one waits for an execution of its kernel. -/
def threeSamples : List Action :=
  [.call (.pcSample { correlation := { backend := "cuda", pid := 7, value := "a" } }),
   .call (.pcSample { correlation := { backend := "cuda", pid := 7, value := "b" } }),
   .call (.pcSample { correlation := { backend := "cuda", pid := 7 } }),
   .call (.exec { correlation := { backend := "cuda", pid := 7, value := "b" }, kernelName := "k" }),
   .snapshotBegin, .snapshotCollect fun _ => some "k", .snapshotJoin, .snapshotFinish]

def roomForOne : TimelineConfig := { launchCache := { capacity := 1 } }

theorem sample_conservation_three_samples : ∃ s, System.Reaches roomForOne threeSamples s ∧ s.attached.length = 1 ∧
      s.timeline.pending.sampleTotal = 0 ∧ s.timeline.pendingModule.sampleTotal = 1 ∧
      s.timeline.dropped.evictedPendingSamples = 1 ∧
      s.timeline.dropped.evictedPendingModuleSamples = 0 ∧
      (s.attached.map Emission.number).Nodup := by
  obtain ⟨s, hr, h⟩ := @exists_run _ _ System.step (System.new roomForOne) threeSamples
    (fun s => s.attached.length == 1 && s.timeline.pending.sampleTotal == 0 &&
      s.timeline.pendingModule.sampleTotal == 1 &&
      s.timeline.dropped.evictedPendingSamples == 1 &&
      s.timeline.dropped.evictedPendingModuleSamples == 0) (by decide +kernel)
  simp only [Bool.and_eq_true, beq_iff_eq] at h
  exact ⟨s, hr, h.1.1.1.1, h.1.1.1.2, h.1.1.2, h.1.2, h.2, (sample_conservation hr).2.2.2.2⟩

end PerfAgent.Gpu
