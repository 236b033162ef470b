import PerfAgent.Gpu.Conservation
import PerfAgent.Gpu.LaunchCacheAccounting

/-!
# No cross-process or fabricated attribution

What a snapshot attaches to an execution belongs to it: an exact launch has the execution's
whole correlation, a heuristic one agrees with it in process, queue and kernel and precedes
it within the window, every PC sample is of the same process, and every launch was handed
over by an `EmitLaunch` call and was in the cache at some moment of that snapshot.

The cache goes on changing while a snapshot runs, so the last part is a statement about the
states on the way, `LiveDuring`.
-/

namespace PerfAgent.Gpu

open List

/-- The launch an action hands over, if it is an `EmitLaunch`. -/
def Action.launch? : Action → Option GPUKernelLaunch
  | .call (.launch l) => some l
  | _ => none

def emittedLaunches (as : List Action) : List GPUKernelLaunch := as.filterMap Action.launch?

/-- The launch was handed over, and at some moment of the `i`-th snapshot of the run the
cache held it. -/
def LiveDuring (cfg : TimelineConfig) (as : List Action) (i : Nat) (l : GPUKernelLaunch) : Prop :=
  ∃ as₁ s₁, as₁ <+: as ∧ System.Reaches cfg as₁ s₁ ∧ s₁.taken.length = i ∧ s₁.phase ≠ .idle ∧
    s₁.timeline.cache.launchOf l.correlation = some l ∧ l ∈ emittedLaunches as₁

/-- What is attached to a view of the `i`-th snapshot belongs to its execution. -/
structure ExecutionView.Attributed (cfg : TimelineConfig) (as : List Action) (i : Nat)
    (v : ExecutionView) : Prop where
  unjoined : v.join = .unjoined → v.launch = none
  exact : v.join = .exact → ∃ l, v.launch = some l ∧ l.correlation = v.exec.correlation
  heuristic : v.join = .heuristic → v.exec.correlation.present = false ∧
    v.exec.correlation.pid ≠ 0 ∧ ∃ l, v.launch = some l ∧
      launchProcessID l = v.exec.correlation.pid ∧ queueKeyOf l.queue = queueKeyOf v.exec.queue ∧
      l.kernelName = v.exec.kernelName ∧ l.timeNs ≤ v.exec.startNs ∧
      (0 < cfg.launchEventJoinWindowNs → v.exec.startNs - l.timeNs ≤ cfg.launchEventJoinWindowNs)
  samples : ∀ e ∈ v.pcSamples, e.sample.correlation.pid = v.exec.correlation.pid
  live : ∀ l, v.launch = some l → LiveDuring cfg as i l

variable {l : GPUKernelLaunch}

theorem LiveDuring.mono {cfg : TimelineConfig} {as as' : List Action} {i : Nat} (h : LiveDuring cfg as i l)
    (hp : as <+: as') : LiveDuring cfg as' i l := by
  obtain ⟨as₁, s₁, hpre, hrest⟩ := h
  exact ⟨as₁, s₁, hpre.trans hp, hrest⟩

theorem ExecutionView.Attributed.mono {cfg : TimelineConfig} {as as' : List Action} {i : Nat}
    {v : ExecutionView} (h : v.Attributed cfg as i) (hp : as <+: as') : v.Attributed cfg as' i :=
  { h with live := fun l hl => (h.live l hl).mono hp }

/-! ## The cache holds what was handed over -/

variable {id : CorrelationID}

theorem LaunchCache.launchOf_put {c : LaunchCache} (hw : c.store.WF) {l' : GPUKernelLaunch}
    (h : (c.put l).launchOf id = some l') : id = l.correlation ∧ l' = l ∨ c.launchOf id = some l' := by
  obtain ⟨e, he, rfl⟩ := Option.map_eq_some_iff.mp h
  obtain ⟨-, -, -, m, hd, hd'⟩ := (wf_putEntry hw l).evict_spec (c.putEntry l).capacity
    (c.putEntry l).newestNs (c.putEntry l).horizonNs
  have hf := hd.find?_of_left (hd'.find?_of_left he)
  rw [store_putEntry, FIFOStore.find?_insert] at hf
  split at hf
  · next hid =>
      cases hf
      exact .inl ⟨hid, rfl⟩
  · exact .inr (Option.map_eq_some_iff.mpr ⟨e, hf, rfl⟩)

theorem LaunchCache.mem_entries {c : LaunchCache} : l ∈ c.entries ↔ ∃ id, c.launchOf id = some l := by
  rw [entries, mem_map]
  constructor
  · rintro ⟨e, he, rfl⟩
    obtain ⟨id, hid⟩ := AssocMap.mem_values_iff.mp he
    exact ⟨id, by rw [launchOf, hid]; rfl⟩
  · rintro ⟨id, h⟩
    obtain ⟨e, he, rfl⟩ := Option.map_eq_some_iff.mp h
    exact ⟨e, AssocMap.mem_values_iff.mpr ⟨id, he⟩, rfl⟩

/-- The cache is well formed and holds launches of the run, each under its own
correlation. -/
structure CacheHolds (as : List Action) (c : LaunchCache) : Prop where
  wf : c.store.WF
  emitted : ∀ id l, c.launchOf id = some l → l.correlation = id ∧ l ∈ emittedLaunches as

theorem CacheHolds.mono {as as' : List Action} {c : LaunchCache} (h : CacheHolds as c)
    (hp : as <+: as') : CacheHolds as' c where
  wf := h.wf
  emitted := fun id l hl => (h.emitted id l hl).imp_right fun hm =>
    (hp.filterMap Action.launch?).subset hm

theorem CacheHolds.put {as : List Action} {c : LaunchCache} (h : CacheHolds as c)
    (l : GPUKernelLaunch) : CacheHolds (as ++ [.call (.launch l)]) (c.put l) where
  wf := LaunchCache.wf_put h.wf l
  emitted := fun id l' hl => by
    rcases LaunchCache.launchOf_put h.wf hl with ⟨rfl, rfl⟩ | hold
    · exact ⟨rfl, by simp [emittedLaunches, Action.launch?]⟩
    · exact (h.mono (prefix_append _ _)).emitted id l' hold

theorem CacheHolds.markJoined {as : List Action} {c : LaunchCache} (h : CacheHolds as c)
    (id : CorrelationID) : CacheHolds as (c.markJoined id) where
  wf := LaunchCache.wf_markJoined h.wf id
  emitted := fun k l hl => h.emitted k l (by rwa [LaunchCache.launchOf_markJoined] at hl)

/-! ## The invariant -/

/-- Everything attached so far belongs where it is, and what the snapshot in flight has yet
to attach will. -/
structure AttributionInv (cfg : TimelineConfig) (as : List Action) (s : System) : Prop where
  window : s.timeline.joinWindowNs = cfg.launchEventJoinWindowNs
  cache : CacheHolds as s.timeline.cache
  taken : ∀ (i : Nat) (snap : Snapshot), s.taken[i]? = some snap → ∀ v ∈ snap.executions, v.Attributed cfg as i
  views : ∀ d c j, s.phase = .joining d c j → ∀ v ∈ j.views, v.Attributed cfg as s.taken.length
  served : ∀ d c j, s.phase = .joining d c j → ∀ r ∈ j.rest, r.Served
  entries : ∀ d c j, s.phase = .joining d c j → ∀ es, j.cacheEntries = some es →
    ∀ l ∈ es, LiveDuring cfg as s.taken.length l

theorem attributionInv_new (cfg : TimelineConfig) : AttributionInv cfg [] (System.new cfg) where
  window := rfl
  cache := ⟨FIFOStore.wf_empty, by simp [System.new, newTimeline, newLaunchCache, LaunchCache.launchOf]⟩
  taken := by simp [System.new]
  views := by simp [System.new]
  served := by simp [System.new]
  entries := by simp [System.new]

section Step

variable {cfg : TimelineConfig} {as : List Action} {s : System}

theorem AttributionInv.liveDuring (h : AttributionInv cfg as s) (hr : System.Reaches cfg as s) (hp : s.phase ≠ .idle)
    (hl : s.timeline.cache.launchOf id = some l) (a : Action) : LiveDuring cfg (as ++ [a]) s.taken.length l := by
  obtain ⟨hid, hem⟩ := h.cache.emitted id l hl
  exact ⟨as, s, prefix_append _ _, hr, rfl, hp, by rw [hid, hl], hem⟩

theorem AttributionInv.frame (h : AttributionInv cfg as s) {a : Action} {t : Timeline} {n : Nat}
    (hw : t.joinWindowNs = s.timeline.joinWindowNs) (hc : CacheHolds (as ++ [a]) t.cache) :
    AttributionInv cfg (as ++ [a]) { s with timeline := t, pcCalls := n } where
  window := hw.trans h.window
  cache := hc
  taken := fun i snap hi v hv => (h.taken i snap hi v hv).mono (prefix_append _ _)
  views := fun d c j hp v hv => (h.views d c j hp v hv).mono (prefix_append _ _)
  served := h.served
  entries := fun d c j hp es he l hl => (h.entries d c j hp es he l hl).mono (prefix_append _ _)

theorem AttributionInv.round (h : AttributionInv cfg as s) (hr : System.Reaches cfg as s)
    {d : Drained} {c : Collected} {j j' : Joining} {cache : LaunchCache} {r : ExecRow}
    {v : ExecutionView} (hp : s.phase = .joining d c j)
    (hround : JoinRound j s.timeline.cache s.timeline.joinWindowNs j' cache r v) (a : Action) :
    v.Attributed cfg (as ++ [a]) s.taken.length := by
  have hidle : s.phase ≠ .idle := by rw [hp]; exact nofun
  have hexec : v.exec = r.exec := by rw [hround.view]; rfl
  have hpc : v.pcSamples = r.samples := by rw [hround.view]; rfl
  have hserved : r.Served := h.served d c j hp r (by rw [hround.rest]; exact mem_cons_self)
  have hsamples : ∀ e ∈ v.pcSamples, e.sample.correlation.pid = v.exec.correlation.pid := by
    rw [hpc, hexec]
    exact hserved.pid
  have hjust := hround.justified
  unfold ExecutionView.Justified at hjust
  cases hjoin : v.join with
  | unjoined =>
    rw [hjoin] at hjust
    exact ⟨fun _ => hjust, by simp [hjoin], by simp [hjoin], hsamples, by simp [hjust]⟩
  | exact =>
    rw [hjoin] at hjust
    obtain ⟨l, hl, hfound⟩ := hjust
    refine ⟨by simp [hjoin], fun _ => ⟨l, hl, (h.cache.emitted _ l hfound).1⟩, by simp [hjoin],
      hsamples, fun l' hl' => ?_⟩
    rw [hl] at hl'
    cases hl'
    exact h.liveDuring hr hidle hfound a
  | heuristic =>
    rw [hjoin] at hjust
    obtain ⟨l, es, hl, hes, hmem, habsent, hpid, hproc, hqueue, hkernel, hbefore, hwin⟩ := hjust
    rw [h.window] at hwin
    refine ⟨by simp [hjoin], by simp [hjoin], fun _ => ⟨habsent, hpid, l, hl, hproc, hqueue,
      hkernel, hbefore, hwin⟩, hsamples, fun l' hl' => ?_⟩
    rw [hl] at hl'
    cases hl'
    exact (h.entries d c j hp es hes l hmem).mono (prefix_append _ _)

theorem AttributionInv.step (h : AttributionInv cfg as s) (hr : System.Reaches cfg as s)
    {a : Action} {s' : System} (hs : System.Step s a s') : AttributionInv cfg (as ++ [a]) s' := by
  have hpre : as <+: as ++ [a] := prefix_append _ _
  have htaken : ∀ (i : Nat) (snap : Snapshot), s.taken[i]? = some snap → ∀ v ∈ snap.executions,
      v.Attributed cfg (as ++ [a]) i := fun i snap hi v hv => (h.taken i snap hi v hv).mono hpre
  cases hs with
  | call c =>
    obtain ⟨hw, hc | ⟨l, rfl, hc⟩⟩ := s.timeline.call_cache s.pcCalls c
    · exact h.frame hw (by rw [hc]; exact h.cache.mono hpre)
    · exact h.frame hw (by rw [hc]; exact h.cache.put l)
  | begin hp =>
    exact ⟨h.window, h.cache.mono hpre, htaken, by simp, by simp, by simp⟩
  | @collect d functionName hp =>
    have hcons := conserved_of_reaches hr
    have hc := collectLocked_spec hcons.pending hcons.pendingModule functionName d.execs
    refine ⟨h.window, h.cache.mono hpre, htaken, ?_, ?_, ?_⟩
    · rintro _ _ _ heq v hv
      cases heq
      cases hv
    · rintro _ _ _ heq
      cases heq
      exact hc.served
    · rintro _ _ _ heq es hes
      cases heq
      cases hes
  | @read d c j order hp hn ho =>
    refine ⟨h.window, h.cache.mono hpre, htaken, ?_, ?_, ?_⟩
    · rintro _ _ _ heq v hv
      cases heq
      exact (h.views d c j hp v hv).mono hpre
    · rintro _ _ _ heq
      cases heq
      exact h.served d c j hp
    · rintro _ _ _ heq es hes l hl
      cases heq
      cases hes
      obtain ⟨id, hid⟩ := LaunchCache.mem_entries.mp (ho.mem_iff.mp hl)
      exact h.liveDuring hr (by rw [hp]; exact nofun) hid _
  | @join d c j j' cache hp hj =>
    obtain ⟨r, v, hround⟩ := Joining.joinExec_spec hj
    refine ⟨h.window, ?_, htaken, ?_, ?_, ?_⟩
    · rcases hround.launches with rfl | ⟨id, rfl⟩
      · exact h.cache.mono hpre
      · exact (h.cache.mono hpre).markJoined id
    · rintro _ _ _ heq v' hv
      cases heq
      rw [hround.views, mem_append, mem_singleton] at hv
      rcases hv with hv | rfl
      · exact (h.views d c j hp v' hv).mono hpre
      · exact h.round hr hp hround _
    · rintro _ _ _ heq r' hr'
      cases heq
      exact h.served d c j hp r' (by rw [hround.rest]; exact mem_cons_of_mem _ hr')
    · rintro _ _ _ heq es hes l hl
      cases heq
      rw [hround.entries] at hes
      exact (h.entries d c j hp es hes l hl).mono hpre
  | @finish d c j hp hrest =>
    refine ⟨h.window, h.cache.mono hpre, ?_, by simp, by simp, by simp⟩
    intro i snap hi v hv
    rw [getElem?_append] at hi
    split at hi
    · exact htaken i snap hi v hv
    · next hlen =>
        obtain ⟨hz, rfl⟩ := List.getElem?_eq_some_iff.mp hi
        have hieq : i = s.taken.length := by
          simp only [length_singleton] at hz
          omega
        simp only [getElem_singleton, finishSnapshot] at hv
        rw [hieq]
        exact (h.views d c j hp v hv).mono hpre

end Step

theorem attributionInv_of_reaches {cfg : TimelineConfig} {as : List Action} {s : System}
    (h : System.Reaches cfg as s) : AttributionInv cfg as s :=
  h.invariant (attributionInv_new cfg) fun _ _ _ _ hr hi hs => hi.step hr hs

/-- No cross-process and no fabricated attribution: in every run, everything attached to a
view of any snapshot handed out belongs to the view's execution. -/
theorem attribution_sound {cfg : TimelineConfig} {as : List Action} {s : System} (h : System.Reaches cfg as s) :
    ∀ (i : Nat) (snap : Snapshot), s.taken[i]? = some snap → ∀ v ∈ snap.executions, v.Attributed cfg as i :=
  (attributionInv_of_reaches h).taken

/-- A launch of kernel `k` on queue `0` by a process. -/
def launchBy (pid : Nat) : GPUKernelLaunch where
  correlation := { backend := "cuda", pid := pid, value := "1" }
  queue := { backend := "cuda", queueID := "0" }
  kernelName := "k"
  timeNs := 5
  launch := { pid := pid }

/-- Two processes launch the same kernel, and one execution of it has no correlation. -/
def twoProcesses : List Action :=
  [.call (.launch (launchBy 7)), .call (.launch (launchBy 8)),
   .call (.exec { correlation := { backend := "cuda", pid := 7 }
                  queue := { backend := "cuda", queueID := "0" }
                  kernelName := "k", startNs := 9, endNs := 10 }),
   .snapshotBegin, .snapshotCollect fun _ => none,
   .snapshotRead [launchBy 7, launchBy 8], .snapshotJoin, .snapshotFinish]

def roomForFour : TimelineConfig := { launchCache := { capacity := 4 } }

theorem attribution_sound_two_processes :
    ∃ s snap, System.Reaches roomForFour twoProcesses s ∧ s.taken[0]? = some snap ∧
      (∃ v ∈ snap.executions, v.launch = some (launchBy 7) ∧ v.join = .heuristic) ∧
      ∀ v ∈ snap.executions, v.Attributed roomForFour twoProcesses 0 := by
  obtain ⟨s, hr, h⟩ := @exists_run _ _ System.step (System.new roomForFour) twoProcesses
    (fun s => s.taken[0]?.any fun snap => snap.executions.any fun v =>
      v.launch == some (launchBy 7) && v.join == .heuristic) (by decide +kernel)
  cases hs : s.taken[0]? with
  | none =>
    rw [hs] at h
    cases h
  | some snap =>
    rw [hs] at h
    obtain ⟨v, hv, hl⟩ := any_eq_true.mp h
    simp only [Bool.and_eq_true, beq_iff_eq] at hl
    exact ⟨s, snap, hr, hs, ⟨v, hv, hl⟩, attribution_sound hr 0 snap hs⟩

end PerfAgent.Gpu
