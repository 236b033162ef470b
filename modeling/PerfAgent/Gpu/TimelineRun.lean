import PerfAgent.Gpu.Snapshot
import PerfAgent.Lib.Machine

/-!
# Runs of the timeline

The timeline as a state machine.  A call of the sink is one step, since it holds the lock
from beginning to end.  A snapshot is several: its two critical sections, the one read of
the launch cache's entries, one step for each execution it joins, and the step that hands
it out.  Calls of the sink may stand between any two of them; a second snapshot may not,
since `snapMu` is held throughout.

`Step` says what each action does, and every invariant of the runs is proved from it.
-/

namespace PerfAgent.Gpu

/-- A call of the sink, or the consumer receiving the pressure signal. -/
inductive Call where
  | launch (l : GPUKernelLaunch)
  | exec (e : GPUKernelExec)
  | pcSample (p : GPUPCSample)
  | module (m : GPUModule)
  | event (e : GPUTimelineEvent)
  | samplingWindow (w : GPUSamplingWindow)
  | graphExecutions (g : GPUGraphExecutions)
  | receivePressure

/-- The timeline after a call; `n` numbers the sample, if it is one. -/
def Timeline.call (t : Timeline) (n : Nat) : Call → Timeline
  | .launch l => t.emitLaunch l
  | .exec e => t.emitExec e
  | .pcSample p => t.emitPCSample ⟨p, n⟩
  | .module m => t.emitModule m
  | .event e => t.emitEvent e
  | .samplingWindow w => t.emitSamplingWindow w
  | .graphExecutions g => t.emitGraphExecutions g
  | .receivePressure => { t with pressure := false }

inductive Action where
  | /-- A call of the sink. -/
    call (c : Call)
  | /-- The first critical section of a snapshot. -/
    snapshotBegin
  | /-- The second one, with the answers of the module store. -/
    snapshotCollect (functionName : PendingModuleKey → Option String)
  | /-- The read of the launch cache, with the order its entries came in. -/
    snapshotRead (order : List GPUKernelLaunch)
  | /-- One execution is joined. -/
    snapshotJoin
  | /-- The snapshot is handed out. -/
    snapshotFinish

inductive Phase where
  | idle
  | drained (d : Drained)
  | joining (d : Drained) (c : Collected) (j : Joining)

variable (cfg : TimelineConfig)

/-- The timeline, the snapshot in flight, those handed out (oldest first), and the number
of `EmitPCSample` calls. -/
structure System where
  timeline : Timeline
  phase : Phase := .idle
  taken : List Snapshot := []
  pcCalls : Nat := 0

namespace System

def new : System where
  timeline := newTimeline cfg

/-- Whether the call is an `EmitPCSample`. -/
def isPCSample : Call → Bool
  | .pcSample _ => true
  | _ => false

/-- Whether the next execution to join needs the entries of the launch cache. -/
def needsEntries (j : Joining) : Bool :=
  j.cacheEntries.isNone && (j.rest.head?.any fun r => !r.exec.correlation.present)

def step (s : System) : Action → Option System
  | .call c => some { s with
      timeline := s.timeline.call s.pcCalls c
      pcCalls := s.pcCalls + (isPCSample c).toNat }
  | .snapshotBegin =>
    match s.phase with
    | .idle =>
      let (t, d) := s.timeline.drainLocked
      some { s with timeline := t, phase := .drained d }
    | _ => none
  | .snapshotCollect functionName =>
    match s.phase with
    | .drained d =>
      let (t, c) := s.timeline.collectLocked functionName d.execs
      some { s with timeline := t, phase := .joining d c (startJoining d c) }
    | _ => none
  | .snapshotRead order =>
    match s.phase with
    | .joining d c j =>
      if needsEntries j = true ∧ order.Perm s.timeline.cache.entries then
        some { s with phase := .joining d c { j with cacheEntries := some order } }
      else none
    | _ => none
  | .snapshotJoin =>
    match s.phase with
    | .joining d c j =>
      (j.joinExec s.timeline.cache s.timeline.joinWindowNs).map fun (j, cache) =>
        { s with
          timeline := { s.timeline with cache := cache }
          phase := .joining d c j }
    | _ => none
  | .snapshotFinish =>
    match s.phase with
    | .joining d c j =>
      if j.rest.isEmpty then
        some { s with
          taken := s.taken ++ [finishSnapshot d c j s.timeline.cache]
          phase := .idle }
      else none
    | _ => none

inductive Step (s : System) : Action → System → Prop
  | call (c : Call) : Step s (.call c) { s with
      timeline := s.timeline.call s.pcCalls c
      pcCalls := s.pcCalls + (isPCSample c).toNat }
  | begin (hp : s.phase = .idle) : Step s .snapshotBegin { s with
      timeline := s.timeline.drainLocked.1
      phase := .drained s.timeline.drainLocked.2 }
  | collect {d : Drained} (functionName) (hp : s.phase = .drained d) :
      Step s (.snapshotCollect functionName) { s with
        timeline := (s.timeline.collectLocked functionName d.execs).1
        phase := .joining d (s.timeline.collectLocked functionName d.execs).2
          (startJoining d (s.timeline.collectLocked functionName d.execs).2) }
  | read {d : Drained} {c : Collected} {j : Joining} (order) (hp : s.phase = .joining d c j)
      (hn : needsEntries j = true) (ho : order.Perm s.timeline.cache.entries) :
      Step s (.snapshotRead order) { s with
        phase := .joining d c { j with cacheEntries := some order } }
  | join {d : Drained} {c : Collected} {j j' : Joining} {cache : LaunchCache}
      (hp : s.phase = .joining d c j)
      (hj : j.joinExec s.timeline.cache s.timeline.joinWindowNs = some (j', cache)) :
      Step s .snapshotJoin { s with
        timeline := { s.timeline with cache := cache }
        phase := .joining d c j' }
  | finish {d : Drained} {c : Collected} {j : Joining} (hp : s.phase = .joining d c j)
      (hr : j.rest = []) :
      Step s .snapshotFinish { s with
        taken := s.taken ++ [finishSnapshot d c j s.timeline.cache]
        phase := .idle }

theorem step_spec {s s' : System} {a : Action} (h : s.step a = some s') : Step s a s' := by
  cases a with
  | call c => cases h; exact .call c
  | snapshotBegin =>
    simp only [step] at h
    split at h
    · next hp => cases h; exact .begin hp
    · cases h
  | snapshotCollect functionName =>
    simp only [step] at h
    split at h
    · next hp => cases h; exact .collect functionName hp
    · cases h
  | snapshotRead order =>
    simp only [step] at h
    split at h
    · next hp =>
        split at h
        · next hc => cases h; exact .read order hp hc.1 hc.2
        · cases h
    · cases h
  | snapshotJoin =>
    simp only [step] at h
    split at h
    · next hp =>
        obtain ⟨⟨j', cache⟩, hj, rfl⟩ := Option.map_eq_some_iff.mp h
        exact .join hp hj
    · cases h
  | snapshotFinish =>
    simp only [step] at h
    split at h
    · next hp =>
        split at h
        · next hr => cases h; exact .finish hp (List.isEmpty_iff.mp hr)
        · cases h
    · cases h

def Reaches (as : List Action) (s : System) : Prop :=
  Run (fun s a s' => s.step a = some s') (new cfg) as s

theorem Reaches.invariant {cfg : TimelineConfig} {as : List Action} {s : System}
    {I : List Action → System → Prop} (h₀ : I [] (new cfg))
    (hstep : ∀ as s a s', Reaches cfg as s → I as s → Step s a s' → I (as ++ [a]) s')
    (h : Reaches cfg as s) : I as s :=
  Run.invariant h₀ (fun as s a s' hr hi ha => hstep as s a s' hr hi (step_spec ha)) h

end System

/-! ## What the calls change -/

namespace Timeline

theorem notePressure_eq (t : Timeline) (b : Bool) : t.notePressure b = { t with pressure := t.pressure || b } := by
  cases b <;> simp [notePressure]

theorem observeExecDeviceLocked_eq (t : Timeline) (e : GPUKernelExec) :
    ∃ devices multi capped, t.observeExecDeviceLocked e =
      { t with
        devicesByPID := devices
        multiDeviceProcesses := multi
        deviceTrackingCapped := capped } := by
  simp only [observeExecDeviceLocked]
  by_cases hd : execDeviceID e = ""
  · rw [if_pos hd]
    exact ⟨_, _, _, rfl⟩
  · rw [if_neg hd]
    cases t.devicesByPID.find? e.correlation.pid with
    | none => dsimp only; split <;> exact ⟨_, _, _, rfl⟩
    | some cur => dsimp only; split <;> exact ⟨_, _, _, rfl⟩

theorem observePendingTimestampLocked_eq (t : Timeline) (n : Nat) :
    ∃ newest, t.observePendingTimestampLocked n = { t with pendingNewestNs := newest } := by
  unfold observePendingTimestampLocked
  split
  · exact ⟨_, rfl⟩
  · split <;> exact ⟨_, rfl⟩

theorem emitGraphExecutions_eq (t : Timeline) (g : GPUGraphExecutions) :
    ∃ byPID total processes unscoped capped all, t.emitGraphExecutions g =
      { t with
        graphExecsByPID := byPID
        graphExecTotal := total
        graphExecProcesses := processes
        graphExecUnscoped := unscoped
        graphExecTrackingCapped := capped
        graphExecAllPIDs := all } := by
  unfold emitGraphExecutions
  split
  · exact ⟨_, _, _, _, _, _, rfl⟩
  · dsimp only
    split
    · exact ⟨_, _, _, _, _, _, rfl⟩
    · split
      · exact ⟨_, _, _, _, _, _, rfl⟩
      · split <;> exact ⟨_, _, _, _, _, _, rfl⟩

theorem emitExec_eq (t : Timeline) (e : GPUKernelExec) : ∃ devices multi capped pressure, t.emitExec e =
      { t with
        devicesByPID := devices
        multiDeviceProcesses := multi
        deviceTrackingCapped := capped
        execs := (t.execs.push e).1
        dropped := { t.dropped with
          evictedExecutions := t.dropped.evictedExecutions + (t.execs.push e).2.toNat }
        pressure := pressure } := by
  obtain ⟨d, m, c, h⟩ := t.observeExecDeviceLocked_eq e
  exact ⟨d, m, c, t.pressure || (t.execs.push e).1.halfFull, by
    simp only [emitExec, h, notePressure_eq]⟩

theorem emitModule_eq (t : Timeline) (m : GPUModule) : ∃ pressure, t.emitModule m =
      { t with
        modules := (t.modules.push m).1
        dropped := { t.dropped with
          evictedModules := t.dropped.evictedModules + (t.modules.push m).2.toNat }
        pressure := pressure } :=
  ⟨t.pressure || (t.modules.push m).1.halfFull, by simp only [emitModule, notePressure_eq]⟩

theorem emitEvent_eq (t : Timeline) (e : GPUTimelineEvent) : ∃ pressure, t.emitEvent e =
      { t with
        events := (t.events.push e).1
        dropped := { t.dropped with
          evictedEvents := t.dropped.evictedEvents + (t.events.push e).2.toNat }
        pressure := pressure } :=
  ⟨t.pressure || (t.events.push e).1.halfFull, by
    simp only [emitEvent, notePressure_eq, cloneTimelineEvent]⟩

theorem emitPCSample_eq (t : Timeline) (e : Emission) : ∃ newest, t.emitPCSample e =
      if e.sample.correlation.present then
        emitPendingLocked { t with pendingNewestNs := newest } e
      else emitPendingModuleLocked { t with pendingNewestNs := newest } e := by
  obtain ⟨n, h⟩ := t.observePendingTimestampLocked_eq e.sample.timeNs
  refine ⟨n, ?_⟩
  rw [emitPCSample, h]
  cases e.sample.correlation.present <;> rfl

theorem call_cache (t : Timeline) (n : Nat) (c : Call) : (t.call n c).joinWindowNs = t.joinWindowNs ∧
      ((t.call n c).cache = t.cache ∨ ∃ l, c = .launch l ∧ (t.call n c).cache = t.cache.put l) := by
  cases c with
  | launch l => exact ⟨rfl, .inr ⟨l, rfl, rfl⟩⟩
  | exec e =>
    obtain ⟨d, m, n, p, h⟩ := t.emitExec_eq e
    simp [call, h]
  | pcSample p =>
    obtain ⟨newest, h⟩ := t.emitPCSample_eq ⟨p, n⟩
    rw [call, h]
    split <;> exact ⟨rfl, .inl rfl⟩
  | module m =>
    obtain ⟨p, h⟩ := t.emitModule_eq m
    simp [call, h]
  | event e =>
    obtain ⟨p, h⟩ := t.emitEvent_eq e
    simp [call, h]
  | samplingWindow w => exact ⟨rfl, .inl rfl⟩
  | graphExecutions g =>
    obtain ⟨b, m, p, u, n, a, h⟩ := t.emitGraphExecutions_eq g
    simp [call, h]
  | receivePressure => exact ⟨rfl, .inl rfl⟩

end Timeline

end PerfAgent.Gpu
