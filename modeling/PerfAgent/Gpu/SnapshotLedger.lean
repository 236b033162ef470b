import PerfAgent.Gpu.Conservation
import PerfAgent.Gpu.SnapshotRecord

/-!
# The ledger a snapshot publishes

A snapshot publishes the samples it attributed, the two gauges of what is pending, and the
counters of what was evicted, so that a reader can put every sample of the run under one of
them.  The counters are copied in the first critical section and the gauges are read in the
second, with the lock free in between.

What a sample evicts in that gap has left the gauges and is not in the copy.  The figures
reconcile in every run in which no sample is lost while a snapshot stands between its two
critical sections (`losesNothingBetween`), and there is a run with one such loss in which
they do not.
-/

universe u

namespace PerfAgent.Gpu

/-! ## Samples that cost none -/

/-- Whether the eviction finds nothing to evict: the store is within its capacity, and its
oldest group is within the horizon. -/
def FIFOStore.inBounds {K : Type u} [DecidableEq K] (cap newest horizon : Nat)
    (s : FIFOStore K PendingSamples) : Bool :=
  s.byKey.size ≤ cap && (horizon == 0 ||
    (s.order.peekOldestLive s.isLive).1.all fun k => (s.byKey.find? k).all fun cur =>
      newest ≤ cur.anchorNs || newest - cur.anchorNs ≤ horizon)

/-- Whether a sample finds room: its group is not full, and with the sample in it the store
is still in its bounds. -/
def PendingIndex.hasRoom {K : Type u} [DecidableEq K] (cap sampleCap newest horizon : Nat)
    (idx : PendingIndex K) (k : K) (e : Emission) : Bool :=
  (idx.entryFor k).2.samples.length < sampleCap && (idx.append sampleCap k e).1.store.inBounds cap newest horizon

/-- Whether the timeline has room for a sample, in the store it belongs to. -/
def Timeline.hasRoom (t : Timeline) (e : Emission) : Bool :=
  let t := t.observePendingTimestampLocked e.sample.timeNs
  if e.sample.correlation.present then
    t.pending.hasRoom t.pendingCap t.pendingSampleCap t.pendingNewestNs t.pendingHorizonNs e.sample.correlation e
  else
    t.pendingModule.hasRoom t.pendingModuleCap t.pendingSampleCap t.pendingNewestNs
      t.pendingHorizonNs (pendingModuleKeyFor e.sample) e

section
variable {K : Type u} [DecidableEq K] {cap sampleCap newest horizon : Nat}

theorem FIFOStore.evictHorizon_of_inBounds {s : FIFOStore K PendingSamples}
    (h : s.inBounds cap newest horizon = true) (hpos : 0 < horizon) (fuel : Nat) :
    ∃ order, evictHorizon newest horizon (fuel + 1) s = ({ s with order := order }, []) := by
  simp only [inBounds, Bool.and_eq_true, Bool.or_eq_true, beq_iff_eq] at h
  have hold := h.2.resolve_left (Nat.ne_of_gt hpos)
  unfold evictHorizon
  cases hp : s.order.peekOldestLive s.isLive with
  | mk oldest order =>
    rw [hp] at hold
    cases oldest with
    | none => exact ⟨order, rfl⟩
    | some k =>
      refine ⟨order, ?_⟩
      dsimp only
      cases hk : s.byKey.find? k with
      | none => rfl
      | some cur =>
        rw [Option.all_some, hk, Option.all_some, Bool.or_eq_true, decide_eq_true_eq, decide_eq_true_eq] at hold
        exact if_pos hold

theorem FIFOStore.evict_of_inBounds {s : FIFOStore K PendingSamples} (h : s.inBounds cap newest horizon = true) :
    (s.evict cap newest horizon).2 = ([], []) := by
  have hcap : s.byKey.size ≤ cap := by
    simp only [inBounds, Bool.and_eq_true, decide_eq_true_eq] at h
    exact h.1
  have hpass : ∃ order, (if horizon > 0 then evictHorizon newest horizon (s.byKey.size + 1) s
      else (s, [])) = ({ s with order := order }, []) := by
    by_cases hpos : horizon > 0
    · rw [if_pos hpos]
      exact evictHorizon_of_inBounds h hpos s.byKey.size
    · rw [if_neg hpos]
      exact ⟨s.order, rfl⟩
  obtain ⟨order, heq⟩ := hpass
  rw [evict, heq]
  simp [evictCapacity, hcap]

theorem PendingIndex.emit_of_hasRoom {idx : PendingIndex K} {k : K} {e : Emission}
    (h : idx.hasRoom cap sampleCap newest horizon k e = true) :
    (idx.emit cap sampleCap newest horizon k e).2 = 0 := by
  rw [hasRoom, Bool.and_eq_true, decide_eq_true_eq] at h
  have hev := FIFOStore.evict_of_inBounds h.2
  have hap : (idx.append sampleCap k e).2 = 0 := by
    rw [append, if_neg (Nat.not_le.mpr h.1)]
  have hlost : (idx.append sampleCap k e).1.lostBy cap newest horizon = 0 := by
    rw [lostBy, hev]
    rfl
  exact congrArg₂ (· + ·) hap hlost

end

theorem Timeline.dropped_emitPCSample {t : Timeline} {e : Emission} (h : t.hasRoom e = true) :
    (t.emitPCSample e).dropped = t.dropped := by
  obtain ⟨newest, hn⟩ := t.observePendingTimestampLocked_eq e.sample.timeNs
  simp only [hasRoom, emitPCSample, hn] at h ⊢
  cases hp : e.sample.correlation.present with
  | true =>
    rw [hp] at h
    have hz := PendingIndex.emit_of_hasRoom h
    simp only [Bool.not_true, Bool.false_eq_true, if_false, emitPendingLocked]
    rw [hz]
    rfl
  | false =>
    rw [hp] at h
    have hz := PendingIndex.emit_of_hasRoom h
    simp only [Bool.not_false, if_true, emitPendingModuleLocked]
    rw [hz]
    rfl

/-! ## What is published -/

/-- A sample handed over while a snapshot stands between its critical sections finds room. -/
def System.losesNothingBetween (s : System) : Action → Bool
  | .call (.pcSample p) =>
    match s.phase with
    | .drained _ => s.timeline.hasRoom ⟨p, s.pcCalls⟩
    | _ => true
  | _ => true

/-- The figures of a ledger: what was attributed, and everything else together. -/
structure Figures where
  attributed : Nat
  others : Nat

def figures : SnapshotRecord Figures where
  ofJoining d c _ :=
    { attributed := c.attributedPCSamples
      others := c.pendingSamples + c.pendingModuleSamples + d.dropped.evictedPendingSamples +
        d.dropped.evictedPendingModuleSamples }
  ofSnapshot s :=
    { attributed := s.attributedPCSamples
      others := s.pendingSamples + s.pendingModuleSamples + s.dropped.evictedPendingSamples +
        s.dropped.evictedPendingModuleSamples }
  read _ _ _ _ := rfl
  join _ _ _ _ _ _ _ _ := rfl
  finish _ _ _ _ _ := rfl

def System.attributed (s : System) : Nat := ((figures.all s).map Figures.attributed).sum

/-! ## The invariant -/

/-- The ledger between two steps: what was published as attributed is attached, and the copy
of the counters is still the counters. -/
structure Reconciled (s : System) : Prop where
  attributed : s.attached.length = s.attributed
  drained : ∀ d, s.phase = .drained d → d.dropped.evictedPendingSamples = s.timeline.dropped.evictedPendingSamples ∧
    d.dropped.evictedPendingModuleSamples = s.timeline.dropped.evictedPendingModuleSamples

variable (cfg : TimelineConfig)

theorem reconciled_new : Reconciled (System.new cfg) where
  attributed := rfl
  drained := nofun

theorem Timeline.call_dropped (t : Timeline) (n : Nat) {c : Call} (h : System.isPCSample c = false) :
    (t.call n c).dropped.evictedPendingSamples = t.dropped.evictedPendingSamples ∧
      (t.call n c).dropped.evictedPendingModuleSamples =
        t.dropped.evictedPendingModuleSamples := by
  cases c with
  | pcSample p => cases h
  | launch l => exact ⟨rfl, rfl⟩
  | exec e =>
    obtain ⟨d, m, n, p, ht⟩ := t.emitExec_eq e
    rw [call, ht]
    exact ⟨rfl, rfl⟩
  | module m =>
    obtain ⟨p, ht⟩ := t.emitModule_eq m
    rw [call, ht]
    exact ⟨rfl, rfl⟩
  | event e =>
    obtain ⟨p, ht⟩ := t.emitEvent_eq e
    rw [call, ht]
    exact ⟨rfl, rfl⟩
  | samplingWindow w => exact ⟨rfl, rfl⟩
  | graphExecutions g =>
    obtain ⟨b, m, p, u, n, a, ht⟩ := t.emitGraphExecutions_eq g
    rw [call, ht]
    exact ⟨rfl, rfl⟩
  | receivePressure => exact ⟨rfl, rfl⟩

theorem Reconciled.call {s : System} (h : Reconciled s) {c : Call}
    (hc : s.losesNothingBetween (.call c) = true) (d : Drained) (hd : s.phase = .drained d) :
    d.dropped.evictedPendingSamples = (s.timeline.call s.pcCalls c).dropped.evictedPendingSamples ∧
      d.dropped.evictedPendingModuleSamples = (s.timeline.call s.pcCalls c).dropped.evictedPendingModuleSamples := by
  obtain ⟨he, hm⟩ := h.drained d hd
  cases hp : System.isPCSample c with
  | false =>
    obtain ⟨he', hm'⟩ := s.timeline.call_dropped s.pcCalls hp
    exact ⟨he.trans he'.symm, hm.trans hm'.symm⟩
  | true =>
    cases c with
    | pcSample p =>
      simp only [System.losesNothingBetween, hd] at hc
      have hdrop : (s.timeline.call s.pcCalls (.pcSample p)).dropped = s.timeline.dropped :=
        Timeline.dropped_emitPCSample hc
      rw [hdrop]
      exact ⟨he, hm⟩
    | _ => cases hp

theorem Reconciled.frame {s s' : System} {a : Action} (h : Reconciled s)
    (hs : System.Step s a s') (ha : a.isCollect = false)
    (hat : s'.attached.length = s.attached.length)
    (hd : ∀ d, s'.phase = .drained d → d.dropped.evictedPendingSamples = s'.timeline.dropped.evictedPendingSamples ∧
      d.dropped.evictedPendingModuleSamples = s'.timeline.dropped.evictedPendingModuleSamples) :
    Reconciled s' where
  attributed := by rw [System.attributed, figures.all_step hs ha, hat, h.attributed]; rfl
  drained := hd

theorem Reconciled.step {as : List Action} {s s' : System} {a : Action} (h : Reconciled s)
    (hc : Conserved as s) (ha : s.losesNothingBetween a = true) (hs : System.Step s a s') :
    Reconciled s' := by
  cases hs with
  | call c => exact h.frame (.call c) rfl rfl (h.call ha)
  | begin hp =>
    refine h.frame (.begin hp) rfl ?_ ?_
    · simp [System.attached, hp, Phase.attached]
    · intro d hd
      cases hd
      exact ⟨rfl, rfl⟩
  | @collect d functionName hp =>
    have hspec := collectLocked_spec hc.pending hc.pendingModule functionName d.execs
    obtain ⟨d', hd', heq⟩ := figures.all_collect (.collect functionName hp)
    have hatt := h.attributed
    rw [System.attributed] at hatt
    refine ⟨?_, fun _ hd => by cases hd⟩
    rw [System.attributed, heq, List.map_append, List.sum_append, ← hatt]
    cases hp.symm.trans hd'
    simp [System.attached, hp, Phase.attached, startJoining, figures, hspec.reported]
  | read order hp hn ho =>
    refine h.frame (.read order hp hn ho) rfl ?_ fun _ hd => by cases hd
    simp [System.attached, hp, Phase.attached]
  | join hp hj =>
    exact h.frame (.join hp hj) rfl (congrArg List.length (System.attached_join hp hj)) fun _ hd => by cases hd
  | finish hp hr =>
    exact h.frame (.finish hp hr) rfl (congrArg List.length (System.attached_finish hp hr)) fun _ hd => by cases hd

/-- The runs in which no sample is lost between the two critical sections of a snapshot. -/
def System.ReachesQuietly (as : List Action) (s : System) : Prop :=
  Run (fun s a s' => s.losesNothingBetween a = true ∧ s.step a = some s') (System.new cfg) as s

theorem reconciled_of_reachesQuietly {cfg : TimelineConfig} {as : List Action} {s : System}
    (h : System.ReachesQuietly cfg as s) : Reconciled s := by
  refine Run.invariant (I := fun _ s => Reconciled s) (reconciled_new cfg) (fun as s a s' hr hi ha => ?_) h
  have hreach : System.Reaches cfg as s := hr.mono fun _ _ _ h => h.2
  exact hi.step (conserved_of_reaches hreach) ha.1 (System.step_spec ha.2)

/-! ## Reconciliation -/

/-- The published figures reconcile.  In every run in which no sample is lost while a
snapshot stands between its two critical sections, the samples handed over before the second
critical section of a snapshot are those attributed by the snapshots up to it, plus the gauges
it reports, plus the evictions it reports. -/
theorem snapshot_reconciles {cfg : TimelineConfig} {as : List Action} {s : System}
    (h : System.ReachesQuietly cfg as s) {as₁ as₂ : List Action}
    {functionName : PendingModuleKey → Option String}
    (hcut : as = as₁ ++ .snapshotCollect functionName :: as₂) {snap : Snapshot}
    (hsnap : s.taken[as₁.countP Action.isCollect]? = some snap) :
    (as₁.countP fun a => a.pcSample?.isSome) =
      ((s.taken.take (as₁.countP Action.isCollect + 1)).map Snapshot.attributedPCSamples).sum +
        snap.pendingSamples + snap.pendingModuleSamples +
        snap.dropped.evictedPendingSamples + snap.dropped.evictedPendingModuleSamples := by
  subst hcut
  obtain ⟨s₁, s₂, d, hr, hq, hd, ha, htake, hfig⟩ := figures.published h hsnap
  have hr₂ : System.ReachesQuietly cfg (as₁ ++ [.snapshotCollect functionName]) s₂ :=
    .snoc hr ⟨hq, ha⟩
  have hcount := (conserved_of_reaches (hr₂.mono fun _ _ _ h => h.2)).count
  obtain ⟨he, hm⟩ := (reconciled_of_reachesQuietly hr).drained d hd
  rw [List.countP_append, (reconciled_of_reachesQuietly hr₂).attributed, System.attributed,
    ← htake, List.map_map] at hcount
  have hothers := congrArg Figures.others hfig
  cases System.step_spec ha with
  | @collect d' _ hd' =>
    cases hd.symm.trans hd'
    have hdropped : (s₁.timeline.collectLocked functionName d.execs).1.dropped =
        s₁.timeline.dropped := rfl
    dsimp only at hcount
    rw [hdropped, ← he, ← hm] at hcount
    simp only [figures, Nat.add_assoc] at hothers ⊢
    rw [hothers]
    simp only [← Nat.add_assoc]
    exact hcount

def sampleThenBegin : List Action :=
  [.call (.pcSample { correlation := { backend := "cuda", pid := 7, value := "a" } }),
   .snapshotBegin]

def otherSample : Action :=
  .call (.pcSample { correlation := { backend := "cuda", pid := 7, value := "b" } })

def noNames : PendingModuleKey → Option String := fun _ => none

def oneCorrelation : TimelineConfig := { launchCache := { capacity := 1 } }

def twoCorrelations : TimelineConfig := { launchCache := { capacity := 2 } }

theorem snapshot_reconciles_two_samples : ∃ s snap, System.ReachesQuietly twoCorrelations
        (sampleThenBegin ++ [otherSample, .snapshotCollect noNames, .snapshotFinish]) s ∧
      s.taken[0]? = some snap ∧ snap.pendingSamples = 2 ∧
      2 = ((s.taken.take 1).map Snapshot.attributedPCSamples).sum + snap.pendingSamples +
        snap.pendingModuleSamples + snap.dropped.evictedPendingSamples +
        snap.dropped.evictedPendingModuleSamples := by
  obtain ⟨s, hr, h⟩ := exists_guarded_run System.step
    (fun s a => s.losesNothingBetween a = true) (System.new twoCorrelations)
    (sampleThenBegin ++ [otherSample, .snapshotCollect noNames, .snapshotFinish])
    (fun s => (s.taken[0]?).any fun snap => snap.pendingSamples == 2) (by decide +kernel)
  obtain ⟨snap, hs, hp⟩ := (Option.any_eq_true _ _).mp h
  exact ⟨s, snap, hr, hs, beq_iff_eq.mp hp,
    @snapshot_reconciles _ _ _ hr (sampleThenBegin ++ [otherSample]) _ _ rfl _ hs⟩

/-- A store of one correlation is full when the first critical section copies the counters;
the second sample evicts the first before the gauges are read.  Two samples were handed over
and the snapshot accounts for one. -/
theorem snapshot_not_reconciled : ∃ s snap, System.Reaches oneCorrelation
        (sampleThenBegin ++ otherSample :: .snapshotCollect noNames :: [.snapshotFinish]) s ∧
      s.taken[0]? = some snap ∧
      (sampleThenBegin ++ [otherSample]).countP (fun a => a.pcSample?.isSome) = 2 ∧
      ((s.taken.take 1).map Snapshot.attributedPCSamples).sum + snap.pendingSamples +
        snap.pendingModuleSamples + snap.dropped.evictedPendingSamples +
        snap.dropped.evictedPendingModuleSamples = 1 := by
  obtain ⟨s, hr, h⟩ := @exists_run _ _ System.step (System.new oneCorrelation)
    (sampleThenBegin ++ otherSample :: .snapshotCollect noNames :: [.snapshotFinish])
    (fun s => (s.taken[0]?).any fun snap =>
      ((s.taken.take 1).map Snapshot.attributedPCSamples).sum + snap.pendingSamples +
        snap.pendingModuleSamples + snap.dropped.evictedPendingSamples +
        snap.dropped.evictedPendingModuleSamples == 1) (by decide +kernel)
  obtain ⟨snap, hs, hp⟩ := (Option.any_eq_true _ _).mp h
  exact ⟨s, snap, hr, hs, rfl, beq_iff_eq.mp hp⟩

end PerfAgent.Gpu
