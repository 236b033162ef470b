import Mathlib.Data.Finset.Card
import PerfAgent.Gpu.LaunchJoin
import PerfAgent.Gpu.SnapshotRecord

/-!
# The CUDA-graph refusal

A process that launched from a CUDA graph has its exact attribution withdrawn, for good
(`EmitGraphExecutions` and `isGraphRefusedLocked` of `gpu/timeline.go`).  The set of refused
processes is bounded; a report that names no process, or that finds the set full, widens the
refusal to every process.

`Tracks` ties the set to the reports of the run: until it is widened it holds exactly the
processes named, and it is widened only for one of the two reasons.  Membership is decided by
a sum of 64 bits being positive, so a process whose reports add up to a multiple of 2⁶⁴ is
forgotten; `sumStaysPositive` excludes that.
-/

namespace PerfAgent.Gpu

open List

def Action.named? : Action → Option Nat
  | .call (.graphExecutions g) => if g.count = 0 then none else some g.pid
  | _ => none

/-- The processes named in a run; zero stands for a report that could not say which. -/
def named (as : List Action) : Finset Nat := (as.filterMap Action.named?).toFinset

/-- The refusal covers every process: a report named none, or more were named than can be
tracked. -/
def Widened (as : List Action) : Prop :=
  0 ∈ named as ∨ maxTrackedGraphProcesses < ((named as).erase 0).card

instance (as : List Action) : Decidable (Widened as) := inferInstanceAs (Decidable (_ ∨ _))

/-- The sum of a process's reports does not come out as zero, unless everything is refused
anyway. -/
def System.sumStaysPositive (s : System) : Action → Bool
  | .call (.graphExecutions g) => s.timeline.graphExecAllPIDs ||
      (s.timeline.graphExecsByPID.find? g.pid).all fun n => n + g.count != 0
  | _ => true

theorem named_snoc_of_none {a : Action} (h : a.named? = none) (as : List Action) : named (as ++ [a]) = named as := by
  simp [named, h]

variable {pid : Nat}

theorem named_snoc_of_some {a : Action} (h : a.named? = some pid) (as : List Action) :
    named (as ++ [a]) = insert pid (named as) := by
  ext n
  simp [named, h]

theorem Widened.snoc {as : List Action} (h : Widened as) (a : Action) : Widened (as ++ [a]) := by
  cases ha : a.named? with
  | none =>
    rw [Widened, named_snoc_of_none ha]
    exact h
  | some pid =>
    rw [Widened, named_snoc_of_some ha]
    refine h.imp Finset.mem_insert_of_mem fun h => h.trans_le ?_
    exact Finset.card_le_card (Finset.erase_subset_erase 0 (Finset.subset_insert _ _))

/-! ## The set and the reports -/

def Timeline.tracked (t : Timeline) : Finset Nat := t.graphExecsByPID.keys.toFinset

theorem Timeline.mem_tracked {t : Timeline} : pid ∈ t.tracked ↔ ∃ n, t.graphExecsByPID.find? pid = some n := by
  rw [tracked, mem_toFinset]
  exact AList.lookup_isSome.symm.trans Option.isSome_iff_exists

theorem Timeline.card_tracked (t : Timeline) : t.tracked.card = t.graphExecsByPID.size := by
  rw [tracked, toFinset_card_of_nodup t.graphExecsByPID.keys_nodup]
  exact length_map _

structure Tracks (as : List Action) (t : Timeline) : Prop where
  only_named : ∀ pid ∈ t.tracked, pid ∈ named as ∧ pid ≠ 0
  bounded : t.graphExecsByPID.size ≤ maxTrackedGraphProcesses
  widened : t.graphExecAllPIDs = true → Widened as
  complete : t.graphExecAllPIDs = false → ∀ pid ∈ named as, pid ∈ t.tracked
  positive : t.graphExecAllPIDs = false → ∀ pid n, t.graphExecsByPID.find? pid = some n → n ≠ 0

variable (cfg : TimelineConfig)

theorem tracks_new : Tracks [] (newTimeline cfg) where
  only_named := by simp [Timeline.tracked, newTimeline]
  bounded := Nat.zero_le _
  widened := nofun
  complete := by simp [named]
  positive := by simp [newTimeline]

variable {as : List Action}

theorem Tracks.not_widened {t : Timeline} (h : Tracks as t) (hall : t.graphExecAllPIDs = false) : ¬ Widened as := by
  rintro (hz | hcard)
  · exact (h.only_named 0 (h.complete hall 0 hz)).2 rfl
  · have hsub : (named as).erase 0 ⊆ t.tracked := fun pid hpid =>
      h.complete hall pid (Finset.mem_of_mem_erase hpid)
    have hle := Finset.card_le_card hsub
    rw [t.card_tracked] at hle
    exact absurd (hcard.trans_le (hle.trans h.bounded)) (Nat.lt_irrefl _)

theorem Tracks.refused_iff {t : Timeline} (h : Tracks as t) (htier : t.pcSampling = .serialized) (pid : Nat) :
    t.isGraphRefusedLocked pid = true ↔ pid ∈ named as ∨ Widened as := by
  rw [Timeline.isGraphRefusedLocked, if_neg (not_not_intro htier), Bool.or_eq_true, decide_eq_true_eq]
  cases hall : t.graphExecAllPIDs with
  | true => exact iff_of_true (.inl rfl) (.inr (h.widened hall))
  | false =>
    rw [or_iff_left (h.not_widened hall)]
    constructor
    · rintro (hf | hpos)
      · cases hf
      · cases hf : t.graphExecsByPID.find? pid with
        | none =>
          rw [hf] at hpos
          exact absurd hpos (by decide)
        | some n => exact (h.only_named pid (Timeline.mem_tracked.mpr ⟨n, hf⟩)).1
    · intro hpid
      obtain ⟨n, hn⟩ := Timeline.mem_tracked.mp (h.complete hall pid hpid)
      right
      rw [hn, Option.getD_some]
      exact UInt64.pos_iff_ne_zero.mpr (h.positive hall pid n hn)

theorem Tracks.frame {t t' : Timeline} {a : Action} (h : Tracks as t) (ha : a.named? = none)
    (hby : t'.graphExecsByPID = t.graphExecsByPID) (hall : t'.graphExecAllPIDs = t.graphExecAllPIDs) :
    Tracks (as ++ [a]) t' where
  only_named := by
    rw [named_snoc_of_none ha, Timeline.tracked, hby]
    exact h.only_named
  bounded := hby ▸ h.bounded
  widened := fun hw => (h.widened (hall ▸ hw)).snoc a
  complete := by
    rw [named_snoc_of_none ha, Timeline.tracked, hby, hall]
    exact h.complete
  positive := by
    rw [hby, hall]
    exact h.positive

theorem Tracks.put {as : List Action} {t t' : Timeline} {a : Action} {pid : Nat} {n : UInt64}
    (h : Tracks as t) (ha : a.named? = some pid) (hpid : pid ≠ 0)
    (hby : t'.graphExecsByPID = t.graphExecsByPID.put pid n)
    (hall : t'.graphExecAllPIDs = t.graphExecAllPIDs)
    (hsize : t'.graphExecsByPID.size ≤ maxTrackedGraphProcesses)
    (hn : t.graphExecAllPIDs = false → n ≠ 0) : Tracks (as ++ [a]) t' := by
  have hmem : ∀ p, p ∈ t'.tracked ↔ p = pid ∨ p ∈ t.tracked := by
    intro p
    rw [Timeline.mem_tracked, Timeline.mem_tracked, hby, AssocMap.find?_put]
    by_cases hp : p = pid
    · simp [hp]
    · simp [hp]
  refine ⟨fun p hp => ?_, hsize, fun hw => (h.widened (hall ▸ hw)).snoc a, fun hf p hp => ?_, fun hf p m hm => ?_⟩
  · rw [named_snoc_of_some ha, Finset.mem_insert]
    rcases (hmem p).mp hp with rfl | hp
    · exact ⟨.inl rfl, hpid⟩
    · exact ⟨.inr (h.only_named p hp).1, (h.only_named p hp).2⟩
  · rw [hall] at hf
    rw [named_snoc_of_some ha, Finset.mem_insert] at hp
    exact (hmem p).mpr (hp.imp_right (h.complete hf p))
  · rw [hall] at hf
    rw [hby, AssocMap.find?_put] at hm
    split at hm
    · cases hm
      exact hn hf
    · exact h.positive hf p m hm

theorem Tracks.widen {t t' : Timeline} {a : Action} (h : Tracks as t) (ha : a.named? = some pid)
    (hby : t'.graphExecsByPID = t.graphExecsByPID) (hall : t'.graphExecAllPIDs = true) (hw : Widened (as ++ [a])) :
    Tracks (as ++ [a]) t' := by
  refine ⟨fun p hp => ?_, hby ▸ h.bounded, fun _ => hw, ?_, ?_⟩
  · rw [Timeline.tracked, hby] at hp
    rw [named_snoc_of_some ha]
    exact ⟨Finset.mem_insert_of_mem (h.only_named p hp).1, (h.only_named p hp).2⟩
  · rw [hall]
    exact nofun
  · rw [hall]
    exact nofun

theorem Tracks.emitGraphExecutions {as : List Action} {s : System} {g : GPUGraphExecutions} (h : Tracks as s.timeline)
    (hg : s.sumStaysPositive (.call (.graphExecutions g)) = true) :
    Tracks (as ++ [.call (.graphExecutions g)]) (s.timeline.emitGraphExecutions g) := by
  by_cases hz : g.count = 0
  · rw [Timeline.emitGraphExecutions, if_pos hz]
    exact h.frame (by simp [Action.named?, hz]) rfl rfl
  have ha : (Action.call (.graphExecutions g)).named? = some g.pid := by simp [Action.named?, hz]
  rw [Timeline.emitGraphExecutions, if_neg hz]
  dsimp only
  split
  · next hp =>
      refine h.widen ha rfl rfl (.inl ?_)
      rw [named_snoc_of_some ha, hp]
      exact Finset.mem_insert_self 0 _
  next hp =>
  split
  · next n hn =>
      refine h.put ha hp rfl rfl ?_ fun hall => ?_
      · exact (AssocMap.size_put_of_find? hn).le.trans h.bounded
      · simpa [System.sumStaysPositive, hall, hn] using hg
  · next hn =>
      split
      · next hfull =>
          -- the set is full of other processes, so one more is one too many
          refine h.widen ha rfl rfl (.inr ?_)
          have hsub : insert g.pid s.timeline.tracked ⊆ (named (as ++ [.call (.graphExecutions g)])).erase 0 := by
            rw [named_snoc_of_some ha]
            intro p hp'
            rcases Finset.mem_insert.mp hp' with rfl | hp'
            · exact Finset.mem_erase.mpr ⟨hp, Finset.mem_insert_self _ _⟩
            · obtain ⟨hmem, hne⟩ := h.only_named p hp'
              exact Finset.mem_erase.mpr ⟨hne, Finset.mem_insert_of_mem hmem⟩
          have hnew : g.pid ∉ s.timeline.tracked := by
            rw [Timeline.mem_tracked]
            rintro ⟨n, hn'⟩
            cases hn.symm.trans hn'
          have hcard := Finset.card_le_card hsub
          rw [Finset.card_insert_of_notMem hnew, Timeline.card_tracked] at hcard
          exact (Nat.lt_succ_of_le hfull).trans_le hcard
      · next hfull =>
          refine h.put ha hp rfl rfl ?_ fun _ => hz
          exact (AssocMap.size_put_of_find?_eq_none hn).le.trans (Nat.not_le.mp hfull)

/-! ## Runs -/

theorem Timeline.call_graph (t : Timeline) (n : Nat) (c : Call) : (t.call n c).pcSampling = t.pcSampling ∧
      ((∃ g, c = .graphExecutions g) ∨ (Action.call c).named? = none ∧
        (t.call n c).graphExecsByPID = t.graphExecsByPID ∧
        (t.call n c).graphExecAllPIDs = t.graphExecAllPIDs) := by
  cases c with
  | launch l => exact ⟨rfl, .inr ⟨rfl, rfl, rfl⟩⟩
  | exec e =>
    obtain ⟨d, m, n, p, h⟩ := t.emitExec_eq e
    rw [call, h]
    exact ⟨rfl, .inr ⟨rfl, rfl, rfl⟩⟩
  | pcSample p =>
    obtain ⟨newest, h⟩ := t.emitPCSample_eq ⟨p, n⟩
    rw [call, h]
    split <;> exact ⟨rfl, .inr ⟨rfl, rfl, rfl⟩⟩
  | module m =>
    obtain ⟨p, h⟩ := t.emitModule_eq m
    rw [call, h]
    exact ⟨rfl, .inr ⟨rfl, rfl, rfl⟩⟩
  | event e =>
    obtain ⟨p, h⟩ := t.emitEvent_eq e
    rw [call, h]
    exact ⟨rfl, .inr ⟨rfl, rfl, rfl⟩⟩
  | samplingWindow w => exact ⟨rfl, .inr ⟨rfl, rfl, rfl⟩⟩
  | graphExecutions g =>
    obtain ⟨b, m, p, u, n, a, h⟩ := t.emitGraphExecutions_eq g
    rw [call, h]
    exact ⟨rfl, .inl ⟨g, rfl⟩⟩
  | receivePressure => exact ⟨rfl, .inr ⟨rfl, rfl, rfl⟩⟩

theorem Tracks.step {as : List Action} {s s' : System} {a : Action} (h : Tracks as s.timeline)
    (ha : s.sumStaysPositive a = true) (hs : System.Step s a s') :
    Tracks (as ++ [a]) s'.timeline := by
  cases hs with
  | call c =>
    rcases (s.timeline.call_graph s.pcCalls c).2 with ⟨g, rfl⟩ | ⟨hn, hby, hall⟩
    · exact h.emitGraphExecutions ha
    · exact h.frame hn hby hall
  | begin hp => exact h.frame rfl rfl rfl
  | collect functionName hp => exact h.frame rfl rfl rfl
  | read order hp hn ho => exact h.frame rfl rfl rfl
  | join hp hj => exact h.frame rfl rfl rfl
  | finish hp hr => exact h.frame rfl rfl rfl

theorem System.Step.pcSampling {s s' : System} {a : Action} (h : Step s a s') :
    s'.timeline.pcSampling = s.timeline.pcSampling := by
  cases h with
  | call c => exact (s.timeline.call_graph s.pcCalls c).1
  | _ => rfl

def System.ReachesPositively (as : List Action) (s : System) : Prop :=
  Run (fun s a s' => s.sumStaysPositive a = true ∧ s.step a = some s') (System.new cfg) as s

theorem System.ReachesPositively.tracks {cfg : TimelineConfig} {s : System} (h : ReachesPositively cfg as s) :
    Tracks as s.timeline ∧ s.timeline.pcSampling = cfg.pcSampling := by
  refine Run.invariant (I := fun as s => Tracks as s.timeline ∧
    s.timeline.pcSampling = cfg.pcSampling) ⟨tracks_new cfg, rfl⟩ (fun as s a s' _ hi ha => ?_) h
  have hs := System.step_spec ha.2
  exact ⟨hi.1.step ha.1 hs, hs.pcSampling.trans hi.2⟩

/-! ## What the executions are told -/

structure Refusal where
  pid : Nat
  refused : Bool
  attrib : PCAttrib

def ExecutionView.refusal (v : ExecutionView) : Refusal where
  pid := v.exec.correlation.pid
  refused := v.graphRefused
  attrib := v.pcAttrib

/-- What is said of each execution, settled in the second critical section. -/
def refusals : SnapshotRecord (List Refusal) where
  ofJoining _ _ j :=
    j.views.map ExecutionView.refusal ++ j.rest.map fun r => r.view.refusal
  ofSnapshot s := s.executions.map ExecutionView.refusal
  read _ _ _ _ := rfl
  join d c j j' cache cache' windowNs hj := by
    obtain ⟨r, v, hr⟩ := Joining.joinExec_spec hj
    have hv : v.refusal = r.view.refusal := by rw [hr.view]; rfl
    simp [hr.rest, hr.views, hv]
  finish d c j cache hr := by simp [finishSnapshot, hr]

theorem refusal_of_collectLocked {t : Timeline}
    {functionName : PendingModuleKey → Option String} {execs : List GPUKernelExec} {r : ExecRow}
    (h : r ∈ (t.collectLocked functionName execs).2.rows) :
    r.graphRefused = t.isGraphRefusedLocked r.exec.correlation.pid := by
  obtain ⟨r', -, rfl⟩ := mem_map.mp h
  rfl

theorem ExecRow.attrib_of_refused {r : ExecRow} (h : r.graphRefused = true) : r.view.pcAttrib ≠ .exact := by
  change (if r.refused then PCAttrib.graphRefused else r.pcAttrib) ≠ .exact
  rw [refused, h, Bool.true_and]
  split
  · exact nofun
  · next hne => simpa using hne

/-- The graph refusal is exact and never lost.  In every run in which no process's reports add
up to zero, every execution of a snapshot is refused if and only if its process was named
before the snapshot's second critical section, or the refusal was widened by then; and a
refused execution is not said to be exact. -/
theorem graph_refusal_exact {cfg : TimelineConfig} (htier : cfg.pcSampling = .serialized)
    {as : List Action} {s : System} (h : System.ReachesPositively cfg as s) :
    (∀ pid, s.timeline.isGraphRefusedLocked pid = true ↔ pid ∈ named as ∨ Widened as) ∧
    ∀ as₁ functionName as₂, as = as₁ ++ .snapshotCollect functionName :: as₂ →
      ∀ snap, s.taken[as₁.countP Action.isCollect]? = some snap → ∀ v ∈ snap.executions,
        (v.graphRefused = true ↔ v.exec.correlation.pid ∈ named as₁ ∨ Widened as₁) ∧
        (v.graphRefused = true → v.pcAttrib ≠ .exact) := by
  obtain ⟨htracks, hsame⟩ := h.tracks
  refine ⟨htracks.refused_iff (hsame.trans htier), ?_⟩
  rintro as₁ functionName as₂ rfl snap hsnap v hv
  obtain ⟨s₁, s₂, d, hr, -, -, -, -, hrec⟩ := refusals.published h hsnap
  obtain ⟨htracks₁, hsame₁⟩ := System.ReachesPositively.tracks hr
  have hmem : v.refusal ∈ refusals.ofSnapshot snap := mem_map_of_mem hv
  rw [hrec] at hmem
  obtain ⟨r, hr, heq⟩ := mem_map.mp (show v.refusal ∈ List.map _ _ from hmem)
  have hpid : v.exec.correlation.pid = r.exec.correlation.pid :=
    (congrArg Refusal.pid heq).symm
  have hrefused : v.graphRefused = r.graphRefused := (congrArg Refusal.refused heq).symm
  have hattrib : v.pcAttrib = r.view.pcAttrib := (congrArg Refusal.attrib heq).symm
  rw [hpid, hrefused, hattrib]
  refine ⟨?_, ExecRow.attrib_of_refused⟩
  rw [refusal_of_collectLocked hr]
  exact htracks₁.refused_iff (hsame₁.trans htier) _

def serializedTier : TimelineConfig :=
  { launchCache := { capacity := 4 }, pcSampling := .serialized }

def execOf (pid : Nat) : Action :=
  .call (.exec { correlation := { backend := "cuda", pid := pid, value := "a" } })

/-- The rest of a snapshot of two executions, after its second critical section. -/
def joinTwo : List Action := [.snapshotJoin, .snapshotJoin, .snapshotFinish]

/-- One of two processes is named, by two reports, and both run a kernel. -/
def oneNamed : List Action :=
  [.call (.graphExecutions { pid := 7, count := 3 }),
   .call (.graphExecutions { pid := 7, count := 1 }), execOf 7, execOf 9, .snapshotBegin]

theorem graph_refusal_exact_one_named : ∃ s snap, System.ReachesPositively serializedTier
        (oneNamed ++ .snapshotCollect (fun _ => none) :: joinTwo) s ∧
      s.taken[0]? = some snap ∧ snap.executions.map ExecutionView.graphRefused = [true, false] ∧
      ∀ v ∈ snap.executions, v.graphRefused = true ↔ v.exec.correlation.pid ∈ named oneNamed ∨ Widened oneNamed := by
  obtain ⟨s, hr, h⟩ := exists_guarded_run System.step
    (fun s a => s.sumStaysPositive a = true) (System.new serializedTier)
    (oneNamed ++ .snapshotCollect (fun _ => none) :: joinTwo)
    (fun s => (s.taken[0]?).any fun snap =>
      snap.executions.map ExecutionView.graphRefused == [true, false]) (by decide +kernel)
  obtain ⟨snap, hs, hp⟩ := (Option.any_eq_true _ _).mp h
  refine ⟨s, snap, hr, hs, beq_iff_eq.mp hp, fun v hv => ?_⟩
  exact ((graph_refusal_exact rfl hr).2 oneNamed _ _ rfl snap hs v hv).1

/-- Two reports of one process that add up to 2⁶⁴, and an execution of it. -/
def wrappedSum : List Action :=
  [.call (.graphExecutions { pid := 7, count := 18446744073709551615 }),
   .call (.graphExecutions { pid := 7, count := 1 }), execOf 7, .snapshotBegin]

/-- The sum of the reports wraps around to zero, and the process is no longer refused. -/
theorem graph_refusal_lost : ∃ s snap, System.Reaches serializedTier
        (wrappedSum ++ .snapshotCollect (fun _ => none) :: [.snapshotJoin, .snapshotFinish]) s ∧
      7 ∈ named wrappedSum ∧ s.taken[0]? = some snap ∧
      snap.executions.map (fun v => (v.exec.correlation.pid, v.graphRefused)) = [(7, false)] := by
  obtain ⟨s, hr, h⟩ := @exists_run _ _ System.step (System.new serializedTier)
    (wrappedSum ++ .snapshotCollect (fun _ => none) :: [.snapshotJoin, .snapshotFinish])
    (fun s => (s.taken[0]?).any fun snap =>
      snap.executions.map (fun v => (v.exec.correlation.pid, v.graphRefused)) == [(7, false)])
    (by decide +kernel)
  obtain ⟨snap, hs, hp⟩ := (Option.any_eq_true _ _).mp h
  exact ⟨s, snap, hr, by decide, hs, beq_iff_eq.mp hp⟩

end PerfAgent.Gpu
