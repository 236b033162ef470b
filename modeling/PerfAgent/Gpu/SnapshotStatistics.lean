import PerfAgent.Gpu.Conservation
import PerfAgent.Lib.Ledger

/-!
# The identities of a snapshot's statistics

The counters of a snapshot agree with what it reports.  Its own identities, `Balanced`, hold
of every snapshot handed out; the loop that moves the counters keeps the same identities over
the views produced so far (`Tallied`).  The three rings are accounted for by one `Ledger`
each, over the whole run: every execution, event and module handed over is in exactly one
snapshot or is counted as evicted, in the order of the calls.
-/

namespace PerfAgent.Gpu

open List

/-! ## One snapshot -/

/-- The identities between the counters of a snapshot and its views. -/
structure Snapshot.Balanced (s : Snapshot) : Prop where
  joins : s.joinStats.exactExecutionJoinCount + s.joinStats.heuristicExecutionJoinCount +
    s.joinStats.unmatchedExecutionCount = s.executions.length
  serialization : s.executionsSerialized + s.executionsNotSerialized +
    s.executionsSerializationUnknown = s.executions.length
  attributed : s.pcJoin.attributedExact + s.pcJoin.attributedKernel = s.attached.length
  refusedExact : ∀ v ∈ s.executions, v.pcAttrib = .graphRefused → v.graphRefused = true ∧
    ∀ e ∈ v.pcSamples, e.sample.correlation.present = true ∧ e.sample.correlation = v.exec.correlation
  refused : s.pcJoin.graphRefusedAttributions = s.executions.countP fun v => v.pcAttrib == .graphRefused
  refusedLe : s.pcJoin.graphRefusedAttributions ≤ s.executionsGraphRefused

/-- The same identities in the middle of the launch join, for the rows `rows`. -/
structure Joining.Tallied (rows : List ExecRow) (groups : Nat) (j : Joining) : Prop where
  execs : j.views.map ExecutionView.exec ++ j.rest.map ExecRow.exec = rows.map ExecRow.exec
  served : ∀ r ∈ j.rest, r.Served
  joins : j.stats.exactExecutionJoinCount + j.stats.heuristicExecutionJoinCount +
    j.stats.unmatchedExecutionCount = j.views.length
  serialization : j.serializedCount + j.notSerializedCount + j.serializationUnknownCount = j.views.length
  attributed : j.pcJoin.attributedTotal = (j.views.flatMap ExecutionView.pcSamples ++ samplesOf j.rest).length
  groups : j.pcJoin.groupsExamined = groups
  refusedExact : ∀ v ∈ j.views, v.pcAttrib = .graphRefused → v.graphRefused = true ∧
    ∀ e ∈ v.pcSamples, e.sample.correlation.present = true ∧ e.sample.correlation = v.exec.correlation
  refused : j.pcJoin.graphRefusedAttributions = j.views.countP fun v => v.pcAttrib == .graphRefused
  refusedLe : j.pcJoin.graphRefusedAttributions ≤ j.executionsGraphRefused

theorem tallied_startJoining {t t' : Timeline} {d : Drained} {c : Collected} (h : Collects t d.execs t' c) :
    (startJoining d c).Tallied c.rows t.pendingModule.store.byKey.size where
  execs := rfl
  served := h.served
  joins := rfl
  serialization := rfl
  attributed := h.attributed
  groups := h.groups
  refusedExact := fun v hv => absurd hv not_mem_nil
  refused := h.refused
  refusedLe := by
    change c.pcJoin.graphRefusedAttributions ≤ 0
    rw [h.refused]

theorem ExecRow.Served.refused_iff {r : ExecRow} (h : r.Served) :
    r.refused = true ↔ r.view.pcAttrib = .graphRefused := by
  unfold ExecRow.view
  by_cases hr : r.refused = true
  · simp [hr]
  · simp only [hr, if_false, false_iff, Bool.false_eq_true]
    unfold ExecRow.pcAttrib
    split
    · exact nofun
    · split
      · rcases h.inferred with ha | ha | ha | ha <;> rw [ha] <;> exact nofun
      · exact nofun

theorem ExecRow.Served.exactServed_of_refused {r : ExecRow} (h : r.Served)
    (hr : r.refused = true) : r.exactServed = true ∧ r.graphRefused = true := by
  simp only [ExecRow.refused, Bool.and_eq_true, beq_iff_eq] at hr
  refine ⟨?_, hr.1⟩
  by_contra hn
  have hp := hr.2
  unfold ExecRow.pcAttrib at hp
  rw [if_neg hn] at hp
  split at hp
  · rcases h.inferred with ha | ha | ha | ha <;> rw [ha] at hp <;> cases hp
  · cases hp

variable {groups : Nat}

theorem Joining.Tallied.round {rows : List ExecRow} {j j' : Joining} {cache cache' : LaunchCache} {windowNs : Nat}
    {r : ExecRow} {v : ExecutionView} (h : j.Tallied rows groups) (hr : JoinRound j cache windowNs j' cache' r v) :
    j'.Tallied rows groups := by
  have hserved : r.Served := h.served r (by rw [hr.rest]; exact mem_cons_self)
  have hexec : v.exec = r.exec := by rw [hr.view]; rfl
  have hpc : v.pcSamples = r.samples := by rw [hr.view]; rfl
  have hattrib : v.pcAttrib = r.view.pcAttrib := by rw [hr.view]
  have hgraph : v.graphRefused = r.graphRefused := by rw [hr.view]; rfl
  have hcount : (v.pcAttrib == .graphRefused) = r.refused := by
    rw [hattrib, Bool.eq_iff_iff, beq_iff_eq, hserved.refused_iff]
  have hrefused : j'.pcJoin.graphRefusedAttributions =
      j.pcJoin.graphRefusedAttributions + r.refused.toNat := by rw [hr.pcJoin]
  refine ⟨?_, ?_, ?_, ?_, ?_, ?_, ?_, ?_, ?_⟩
  · rw [← h.execs, hr.rest, hr.views]
    simp [hexec]
  · intro r' hr'
    exact h.served r' (by rw [hr.rest]; exact mem_cons_of_mem _ hr')
  · have hjoin : (v.join == .exact).toNat + (v.join == .heuristic).toNat +
        (v.join == .unjoined).toNat = 1 := by cases v.join <;> rfl
    have := h.joins
    rw [hr.exactJoins, hr.heuristicJoins, hr.unmatched, hr.views, List.length_append, length_singleton]
    omega
  · have hser : (r.serialization == .serialized).toNat + (r.serialization == .notSerialized).toNat +
        (r.serialization == .unknown).toNat = 1 := by cases r.serialization <;> rfl
    have := h.serialization
    rw [hr.serialized, hr.notSerialized, hr.serializationUnknown, hr.views, List.length_append, length_singleton]
    omega
  · rw [hr.pcJoin]
    refine h.attributed.trans ?_
    rw [hr.rest, hr.views]
    simp [hpc]
  · rw [hr.pcJoin]
    exact h.groups
  · intro v' hv' ha
    rw [hr.views, mem_append, mem_singleton] at hv'
    rcases hv' with hv' | rfl
    · exact h.refusedExact v' hv' ha
    · rw [hattrib, ← hserved.refused_iff] at ha
      obtain ⟨hex, hg⟩ := hserved.exactServed_of_refused ha
      rw [hgraph, hpc, hexec]
      exact ⟨hg, hserved.exact hex⟩
  · rw [hrefused, h.refused, hr.views, countP_append, countP_singleton, hcount]
    cases r.refused <;> rfl
  · rw [hrefused, hr.graphRefused]
    refine Nat.add_le_add h.refusedLe ?_
    unfold ExecRow.refused
    cases r.graphRefused with
    | false => exact Nat.le_refl _
    | true => exact Bool.toNat_le _

theorem balanced_finishSnapshot {rows : List ExecRow} {j : Joining} (h : j.Tallied rows groups) (hr : j.rest = [])
    (d : Drained) (c : Collected) (cache : LaunchCache) : (finishSnapshot d c j cache).Balanced where
  joins := h.joins
  serialization := h.serialization
  attributed := by
    have := h.attributed
    rw [hr, samplesOf_nil, append_nil] at this
    exact this
  refusedExact := h.refusedExact
  refused := h.refused
  refusedLe := h.refusedLe

/-! ## Every snapshot of a run -/

/-- The snapshot examined as many groups as were pending when it collected. -/
def ExaminedAll (cfg : TimelineConfig) (as : List Action) (i : Nat) (groups : Nat) : Prop :=
  ∃ as₁ functionName s₁, as₁ ++ [.snapshotCollect functionName] <+: as ∧
    System.Reaches cfg as₁ s₁ ∧ s₁.taken.length = i ∧
    groups = s₁.timeline.pendingModule.store.byKey.size

variable {as : List Action} {cfg : TimelineConfig}

theorem ExaminedAll.mono {as' : List Action} {i : Nat} (h : ExaminedAll cfg as i groups) (hp : as <+: as') :
    ExaminedAll cfg as' i groups := by
  obtain ⟨as₁, f, s₁, hpre, hrest⟩ := h
  exact ⟨as₁, f, s₁, hpre.trans hp, hrest⟩

/-- The snapshots handed out are balanced, and the one in flight will be. -/
structure StatisticsInv (cfg : TimelineConfig) (as : List Action) (s : System) : Prop where
  taken : ∀ (i : Nat) (snap : Snapshot), s.taken[i]? = some snap →
    snap.Balanced ∧ ExaminedAll cfg as i snap.pcJoin.groupsExamined
  joining : ∀ d c j, s.phase = .joining d c j → ∃ groups, j.Tallied c.rows groups ∧ c.rows.map ExecRow.exec = d.execs ∧
    ExaminedAll cfg as s.taken.length groups

theorem statisticsInv_new (cfg : TimelineConfig) : StatisticsInv cfg [] (System.new cfg) where
  taken := by simp [System.new]
  joining := by simp [System.new]

theorem StatisticsInv.step {cfg : TimelineConfig} {as : List Action} {s s' : System} {a : Action}
    (h : StatisticsInv cfg as s) (hr : System.Reaches cfg as s) (hs : System.Step s a s') :
    StatisticsInv cfg (as ++ [a]) s' := by
  have hpre : as <+: as ++ [a] := prefix_append _ _
  have htaken : ∀ (i : Nat) (snap : Snapshot), s.taken[i]? = some snap →
      snap.Balanced ∧ ExaminedAll cfg (as ++ [a]) i snap.pcJoin.groupsExamined :=
    fun i snap hi => (h.taken i snap hi).imp_right fun he => he.mono hpre
  cases hs with
  | call c =>
    refine ⟨htaken, fun d c j hp => ?_⟩
    obtain ⟨g, ht, he, hx⟩ := h.joining d c j hp
    exact ⟨g, ht, he, hx.mono hpre⟩
  | begin hp => exact ⟨htaken, by simp⟩
  | @collect d functionName hp =>
    have hcons := conserved_of_reaches hr
    have hc := collectLocked_spec hcons.pending hcons.pendingModule functionName d.execs
    refine ⟨htaken, ?_⟩
    rintro _ _ _ heq
    cases heq
    exact ⟨_, tallied_startJoining hc, hc.execs, as, functionName, s, prefix_rfl, hr, rfl, rfl⟩
  | @read d c j order hp hn ho =>
    refine ⟨htaken, ?_⟩
    rintro _ _ _ heq
    cases heq
    obtain ⟨g, ht, he, hx⟩ := h.joining d c j hp
    exact ⟨g, { ht with }, he, hx.mono hpre⟩
  | @join d c j j' cache hp hj =>
    obtain ⟨r, v, hround⟩ := Joining.joinExec_spec hj
    refine ⟨htaken, ?_⟩
    rintro _ _ _ heq
    cases heq
    obtain ⟨g, ht, he, hx⟩ := h.joining d c j hp
    exact ⟨g, ht.round hround, he, hx.mono hpre⟩
  | @finish d c j hp hrest =>
    obtain ⟨g, ht, he, hx⟩ := h.joining d c j hp
    refine ⟨fun i snap hi => ?_, by simp⟩
    rw [getElem?_append] at hi
    split at hi
    · exact htaken i snap hi
    · obtain ⟨hz, rfl⟩ := List.getElem?_eq_some_iff.mp hi
      have hieq : i = s.taken.length := by
        simp only [length_singleton] at hz
        omega
      rw [getElem_singleton, hieq]
      refine ⟨balanced_finishSnapshot ht hrest d c _, ?_⟩
      rw [show (finishSnapshot d c j s.timeline.cache).pcJoin.groupsExamined = g from ht.groups]
      exact hx.mono hpre

theorem statisticsInv_of_reaches {s : System} (h : System.Reaches cfg as s) : StatisticsInv cfg as s :=
  h.invariant (statisticsInv_new cfg) fun _ _ _ _ hr hi hs => hi.step hr hs

/-! ## The three rings -/

def Action.exec? : Action → Option GPUKernelExec
  | .call (.exec e) => some e
  | _ => none

def Action.event? : Action → Option GPUTimelineEvent
  | .call (.event e) => some e
  | _ => none

def Action.module? : Action → Option GPUModule
  | .call (.module m) => some m
  | _ => none

/-- What the snapshot in flight has taken out of the rings, if there is one. -/
def Phase.drained? : Phase → Option Drained
  | .idle => none
  | .drained d => some d
  | .joining d _ _ => some d

/-- The reports of one ring: of the snapshots handed out, and of the one in flight. -/
def System.reports {α : Type} (taken : Snapshot → List α × Nat) (drained : Drained → List α × Nat)
    (s : System) : List (List α × Nat) :=
  s.taken.map taken ++ s.phase.drained?.toList.map drained

def System.execReports : System → List (List GPUKernelExec × Nat) :=
  System.reports (fun s => (s.executions.map ExecutionView.exec, s.dropped.evictedExecutions))
    fun d => (d.execs, d.dropped.evictedExecutions)

def System.eventReports : System → List (List GPUTimelineEvent × Nat) :=
  System.reports (fun s => (s.events, s.dropped.evictedEvents)) fun d => (d.events, d.dropped.evictedEvents)

def System.moduleReports : System → List (List GPUModule × Nat) :=
  System.reports (fun s => (s.modules, s.dropped.evictedModules)) fun d => (d.modules, d.dropped.evictedModules)

structure RingsInv (as : List Action) (s : System) : Prop where
  execs : Ledger (as.filterMap Action.exec?) s.execReports s.timeline.execs.items s.timeline.dropped.evictedExecutions
  events : Ledger (as.filterMap Action.event?) s.eventReports s.timeline.events.items s.timeline.dropped.evictedEvents
  modules : Ledger (as.filterMap Action.module?) s.moduleReports s.timeline.modules.items
    s.timeline.dropped.evictedModules
  spareExecs : ∀ r ∈ s.timeline.spareExecs, r.items = []
  spareEvents : ∀ r ∈ s.timeline.spareEvents, r.items = []
  spareModules : ∀ r ∈ s.timeline.spareModules, r.items = []

theorem ringsInv_new (cfg : TimelineConfig) : RingsInv [] (System.new cfg) where
  execs := Ledger.nil
  events := Ledger.nil
  modules := Ledger.nil
  spareExecs := nofun
  spareEvents := nofun
  spareModules := nofun

variable {α : Type}

theorem filterMap_snoc_some {f : Action → Option α} {a : Action} {v : α} (h : f a = some v) (as : List Action) :
    (as ++ [a]).filterMap f = as.filterMap f ++ [v] := by
  rw [filterMap_append, filterMap_cons_some h, filterMap_nil]

theorem filterMap_snoc_none {f : Action → Option α} {a : Action} (h : f a = none) (as : List Action) :
    (as ++ [a]).filterMap f = as.filterMap f := by
  rw [filterMap_append, filterMap_cons_none h, filterMap_nil, append_nil]

theorem RingsInv.frame {s s' : System} {a : Action} (h : RingsInv as s) (he : a.exec? = none) (hv : a.event? = none)
    (hm : a.module? = none) (ht : s'.timeline.execs = s.timeline.execs ∧ s'.timeline.events = s.timeline.events ∧
      s'.timeline.modules = s.timeline.modules ∧
      s'.timeline.spareExecs = s.timeline.spareExecs ∧
      s'.timeline.spareEvents = s.timeline.spareEvents ∧
      s'.timeline.spareModules = s.timeline.spareModules)
    (hd : s'.timeline.dropped.evictedExecutions = s.timeline.dropped.evictedExecutions ∧
      s'.timeline.dropped.evictedEvents = s.timeline.dropped.evictedEvents ∧
      s'.timeline.dropped.evictedModules = s.timeline.dropped.evictedModules)
    (hr : s'.execReports = s.execReports ∧ s'.eventReports = s.eventReports ∧
      s'.moduleReports = s.moduleReports) : RingsInv (as ++ [a]) s' := by
  obtain ⟨t₁, t₂, t₃, t₄, t₅, t₆⟩ := ht
  obtain ⟨d₁, d₂, d₃⟩ := hd
  obtain ⟨r₁, r₂, r₃⟩ := hr
  refine ⟨?_, ?_, ?_, t₄ ▸ h.spareExecs, t₅ ▸ h.spareEvents, t₆ ▸ h.spareModules⟩
  · rw [t₁, d₁, r₁, filterMap_snoc_none he]
    exact h.execs
  · rw [t₂, d₂, r₂, filterMap_snoc_none hv]
    exact h.events
  · rw [t₃, d₃, r₃, filterMap_snoc_none hm]
    exact h.modules

theorem ledger_push [Inhabited α] {emitted : List α} {reports : List (List α × Nat)} {r : Ring α} {n : Nat}
    (h : Ledger emitted reports r.items n) (v : α) :
    Ledger (emitted ++ [v]) reports (r.push v).1.items (n + (r.push v).2.toNat) := by
  obtain ⟨dropped, hd, hn⟩ := r.items_push v
  rw [← hn]
  exact h.push hd

theorem RingsInv.call {as : List Action} {s : System} (h : RingsInv as s) (c : Call) :
    RingsInv (as ++ [.call c]) { s with
      timeline := s.timeline.call s.pcCalls c
      pcCalls := s.pcCalls + (System.isPCSample c).toNat } := by
  cases c with
  | exec e =>
    obtain ⟨d, m, n, p, ht⟩ := s.timeline.emitExec_eq e
    simp only [Timeline.call, ht]
    refine ⟨?_, ?_, ?_, h.spareExecs, h.spareEvents, h.spareModules⟩
    · rw [filterMap_snoc_some (v := e) rfl]
      exact ledger_push h.execs e
    · rw [filterMap_snoc_none rfl]
      exact h.events
    · rw [filterMap_snoc_none rfl]
      exact h.modules
  | event e =>
    obtain ⟨p, ht⟩ := s.timeline.emitEvent_eq e
    simp only [Timeline.call, ht]
    refine ⟨?_, ?_, ?_, h.spareExecs, h.spareEvents, h.spareModules⟩
    · rw [filterMap_snoc_none rfl]
      exact h.execs
    · rw [filterMap_snoc_some (v := e) rfl]
      exact ledger_push h.events e
    · rw [filterMap_snoc_none rfl]
      exact h.modules
  | module m =>
    obtain ⟨p, ht⟩ := s.timeline.emitModule_eq m
    simp only [Timeline.call, ht]
    refine ⟨?_, ?_, ?_, h.spareExecs, h.spareEvents, h.spareModules⟩
    · rw [filterMap_snoc_none rfl]
      exact h.execs
    · rw [filterMap_snoc_none rfl]
      exact h.events
    · rw [filterMap_snoc_some (v := m) rfl]
      exact ledger_push h.modules m
  | launch l => exact h.frame rfl rfl rfl ⟨rfl, rfl, rfl, rfl, rfl, rfl⟩ ⟨rfl, rfl, rfl⟩ ⟨rfl, rfl, rfl⟩
  | pcSample p =>
    obtain ⟨newest, ht⟩ := s.timeline.emitPCSample_eq ⟨p, s.pcCalls⟩
    simp only [Timeline.call, ht]
    split
    · exact h.frame rfl rfl rfl ⟨rfl, rfl, rfl, rfl, rfl, rfl⟩ ⟨rfl, rfl, rfl⟩ ⟨rfl, rfl, rfl⟩
    · exact h.frame rfl rfl rfl ⟨rfl, rfl, rfl, rfl, rfl, rfl⟩ ⟨rfl, rfl, rfl⟩ ⟨rfl, rfl, rfl⟩
  | samplingWindow w =>
    exact h.frame rfl rfl rfl ⟨rfl, rfl, rfl, rfl, rfl, rfl⟩ ⟨rfl, rfl, rfl⟩ ⟨rfl, rfl, rfl⟩
  | graphExecutions g =>
    obtain ⟨b, t, p, u, n, a, ht⟩ := s.timeline.emitGraphExecutions_eq g
    simp only [Timeline.call, ht]
    exact h.frame rfl rfl rfl ⟨rfl, rfl, rfl, rfl, rfl, rfl⟩ ⟨rfl, rfl, rfl⟩ ⟨rfl, rfl, rfl⟩
  | receivePressure =>
    exact h.frame rfl rfl rfl ⟨rfl, rfl, rfl, rfl, rfl, rfl⟩ ⟨rfl, rfl, rfl⟩ ⟨rfl, rfl, rfl⟩

theorem reports_of_drained {taken : Snapshot → List α × Nat} {drained : Drained → List α × Nat} {s : System}
    {t : Timeline} {p : Phase} (h : p.drained? = s.phase.drained?) :
    System.reports taken drained { s with timeline := t, phase := p } = System.reports taken drained s := by
  simp only [System.reports, h]

/-- The step that hands a snapshot out keeps the reports, if the snapshot reports what was
drained. -/
theorem reports_of_finish {taken : Snapshot → List α × Nat} {drained : Drained → List α × Nat} {s : System}
    {d : Drained} {snap : Snapshot} (hp : s.phase.drained? = some d) (hs : taken snap = drained d) :
    System.reports taken drained { s with taken := s.taken ++ [snap], phase := .idle } =
      System.reports taken drained s := by
  simp only [System.reports, hp, map_append]
  simp [Phase.drained?, hs]

theorem RingsInv.begin {s : System} (h : RingsInv as s) (hp : s.phase = .idle) :
    RingsInv (as ++ [.snapshotBegin]) { s with
      timeline := s.timeline.drainLocked.1
      phase := .drained s.timeline.drainLocked.2 } := by
  have hcut : ∀ {α : Type} (taken : Snapshot → List α × Nat) (drained : Drained → List α × Nat),
      System.reports taken drained { s with
        timeline := s.timeline.drainLocked.1
        phase := .drained s.timeline.drainLocked.2 } =
      System.reports taken drained s ++ [drained s.timeline.drainLocked.2] := by
    intro α taken drained
    simp [System.reports, hp, Phase.drained?]
  refine ⟨?_, ?_, ?_, ?_, ?_, ?_⟩
  · rw [filterMap_snoc_none rfl, System.execReports, hcut]
    change Ledger _ _ (Ring.swapRing _ _).items _
    rw [Ring.items_swapRing _ h.spareExecs]
    exact h.execs.cut
  · rw [filterMap_snoc_none rfl, System.eventReports, hcut]
    change Ledger _ _ (Ring.swapRing _ _).items _
    rw [Ring.items_swapRing _ h.spareEvents]
    exact h.events.cut
  · rw [filterMap_snoc_none rfl, System.moduleReports, hcut]
    change Ledger _ _ (Ring.swapRing _ _).items _
    rw [Ring.items_swapRing _ h.spareModules]
    exact h.modules.cut
  all_goals
    rintro r ⟨⟩
    rfl

theorem RingsInv.step {cfg : TimelineConfig} {as : List Action} {s s' : System} {a : Action}
    (h : RingsInv as s) (hr : System.Reaches cfg as s) (hs : System.Step s a s') :
    RingsInv (as ++ [a]) s' := by
  cases hs with
  | call c => exact h.call c
  | begin hp => exact h.begin hp
  | @collect d functionName hp =>
    have hd : (Phase.joining d (s.timeline.collectLocked functionName d.execs).2
        (startJoining d (s.timeline.collectLocked functionName d.execs).2)).drained? =
        s.phase.drained? := by rw [hp]; rfl
    exact h.frame rfl rfl rfl ⟨rfl, rfl, rfl, rfl, rfl, rfl⟩ ⟨rfl, rfl, rfl⟩
      ⟨reports_of_drained hd, reports_of_drained hd, reports_of_drained hd⟩
  | @read d c j order hp hn ho =>
    have hd : (Phase.joining d c { j with cacheEntries := some order }).drained? = s.phase.drained? := by rw [hp]; rfl
    exact h.frame rfl rfl rfl ⟨rfl, rfl, rfl, rfl, rfl, rfl⟩ ⟨rfl, rfl, rfl⟩
      ⟨reports_of_drained hd, reports_of_drained hd, reports_of_drained hd⟩
  | @join d c j j' cache hp hj =>
    have hd : (Phase.joining d c j').drained? = s.phase.drained? := by rw [hp]; rfl
    exact h.frame rfl rfl rfl ⟨rfl, rfl, rfl, rfl, rfl, rfl⟩ ⟨rfl, rfl, rfl⟩
      ⟨reports_of_drained hd, reports_of_drained hd, reports_of_drained hd⟩
  | @finish d c j hp hrest =>
    have hd : s.phase.drained? = some d := by rw [hp]; rfl
    obtain ⟨g, ht, he, -⟩ := (statisticsInv_of_reaches hr).joining d c j hp
    have hexec : j.views.map ExecutionView.exec = d.execs := by
      have := ht.execs
      rw [hrest, map_nil, append_nil] at this
      exact this.trans he
    exact h.frame rfl rfl rfl ⟨rfl, rfl, rfl, rfl, rfl, rfl⟩ ⟨rfl, rfl, rfl⟩
      ⟨reports_of_finish hd (Prod.ext hexec rfl), reports_of_finish hd rfl, reports_of_finish hd rfl⟩

theorem ringsInv_of_reaches {s : System} (h : System.Reaches cfg as s) : RingsInv as s :=
  h.invariant (ringsInv_new cfg) fun _ _ _ _ hr hi hs => hi.step hr hs

/-! ## The statistics of a run -/

/-- The identities of the statistics, in every run.  Each snapshot handed out is balanced and
examined every module group that was pending; and every execution, event and module handed
over is, in the order of the calls, in the one snapshot of its epoch, or counted as evicted
by its ring, or still in the ring. -/
theorem snapshot_statistics {cfg : TimelineConfig} {as : List Action} {s : System} (h : System.Reaches cfg as s) :
    (∀ (i : Nat) (snap : Snapshot), s.taken[i]? = some snap →
      snap.Balanced ∧ ExaminedAll cfg as i snap.pcJoin.groupsExamined) ∧
    Ledger (as.filterMap Action.exec?) s.execReports s.timeline.execs.items s.timeline.dropped.evictedExecutions ∧
    Ledger (as.filterMap Action.event?) s.eventReports s.timeline.events.items s.timeline.dropped.evictedEvents ∧
    Ledger (as.filterMap Action.module?) s.moduleReports s.timeline.modules.items s.timeline.dropped.evictedModules :=
  have hrings := ringsInv_of_reaches h
  ⟨(statisticsInv_of_reaches h).taken, hrings.execs, hrings.events, hrings.modules⟩

/-- Two executions of a process that launches from a graph, over a ring of one; the second
has a PC sample. -/
def refusedSample : List Action :=
  [.call (.exec { correlation := { backend := "cuda", pid := 7, value := "a" } }),
   .call (.exec { correlation := { backend := "cuda", pid := 7, value := "b" } }),
   .call (.pcSample { correlation := { backend := "cuda", pid := 7, value := "b" } }),
   .call (.graphExecutions { backend := "cuda", pid := 7, count := 1 }),
   .snapshotBegin, .snapshotCollect fun _ => none, .snapshotJoin, .snapshotFinish]

def serializedOne : TimelineConfig where
  launchCache := { capacity := 1 }
  pcSampling := .serialized

theorem snapshot_statistics_refused_sample :
    ∃ s snap, System.Reaches serializedOne refusedSample s ∧ s.taken[0]? = some snap ∧
      snap.executions.length = 1 ∧ snap.dropped.evictedExecutions = 1 ∧
      snap.pcJoin.graphRefusedAttributions = 1 ∧ snap.Balanced ∧
      Ledger (refusedSample.filterMap Action.exec?) s.execReports s.timeline.execs.items
        s.timeline.dropped.evictedExecutions := by
  obtain ⟨s, hr, h⟩ := @exists_run _ _ System.step (System.new serializedOne) refusedSample
    (fun s => s.taken[0]?.any fun snap => snap.executions.length == 1 &&
      snap.dropped.evictedExecutions == 1 && snap.pcJoin.graphRefusedAttributions == 1)
    (by decide +kernel)
  cases hs : s.taken[0]? with
  | none =>
    rw [hs] at h
    cases h
  | some snap =>
    rw [hs] at h
    simp only [Option.any_some, Bool.and_eq_true, beq_iff_eq] at h
    have hstats := snapshot_statistics hr
    exact ⟨s, snap, hr, hs, h.1.1, h.1.2, h.2, (hstats.1 0 snap hs).1, hstats.2.1⟩

end PerfAgent.Gpu
