import PerfAgent.Gpu.TimelineRun

/-!
# What a snapshot has read

A snapshot decides most of what it reports in its second critical section, and hands it out
several steps later.  A `SnapshotRecord` is something that is settled there and only carried
along afterwards: the steps of the join and the step that hands the snapshot out keep it.

`SnapshotRecord.published` takes a snapshot of a run back to the state in which its second
critical section ran.
-/

universe u

namespace PerfAgent.Gpu

open List

/-- Whether the action is the second critical section of a snapshot. -/
def Action.isCollect : Action → Bool
  | .snapshotCollect _ => true
  | _ => false

variable {cfg : TimelineConfig}

/-- Something that can be read off a snapshot in flight, and that is still the same in the
snapshot handed out. -/
structure SnapshotRecord (X : Type u) where
  ofJoining : Drained → Collected → Joining → X
  ofSnapshot : Snapshot → X
  read : ∀ d c j order, ofJoining d c { j with cacheEntries := some order } = ofJoining d c j
  join : ∀ d c j j' cache cache' windowNs, j.joinExec cache windowNs = some (j', cache') →
    ofJoining d c j' = ofJoining d c j
  finish : ∀ d c j cache, j.rest = [] → ofSnapshot (finishSnapshot d c j cache) = ofJoining d c j

namespace SnapshotRecord

variable {X : Type u} (R : SnapshotRecord X)

def ofPhase : Phase → List X
  | .joining d c j => [R.ofJoining d c j]
  | _ => []

def all (s : System) : List X := s.taken.map R.ofSnapshot ++ R.ofPhase s.phase

theorem all_step {s s' : System} {a : Action} (h : System.Step s a s')
    (ha : a.isCollect = false) : R.all s' = R.all s := by
  cases h with
  | call c => rfl
  | begin hp => simp [all, hp, ofPhase]
  | collect functionName hp => cases ha
  | read order hp hn ho => simp [all, hp, ofPhase, R.read]
  | join hp hj => simp [all, hp, ofPhase, R.join _ _ _ _ _ _ _ hj]
  | finish hp hr => simp [all, hp, ofPhase, R.finish _ _ _ _ hr]

theorem all_collect {s s' : System} {functionName : PendingModuleKey → Option String}
    (h : System.Step s (.snapshotCollect functionName) s') :
    ∃ d, s.phase = .drained d ∧ R.all s' = R.all s ++ [R.ofJoining d (s.timeline.collectLocked functionName d.execs).2
        (startJoining d (s.timeline.collectLocked functionName d.execs).2)] := by
  cases h with
  | @collect d _ hp => exact ⟨d, hp, by simp [all, hp, ofPhase]⟩

theorem all_mono {s s' : System} {a : Action} (h : System.Step s a s') : R.all s <+: R.all s' := by
  cases ha : a.isCollect with
  | false => exact ⟨[], by rw [R.all_step h ha, append_nil]⟩
  | true =>
    cases a with
    | snapshotCollect functionName =>
      obtain ⟨d, -, heq⟩ := R.all_collect h
      rw [heq]
      exact prefix_append _ _
    | _ => cases ha

theorem length_all {as : List Action} {s : System} (h : System.Reaches cfg as s) :
    (R.all s).length = as.countP Action.isCollect := by
  refine h.invariant (I := fun as s => (R.all s).length = as.countP Action.isCollect) rfl fun as s a s' _ hi hs => ?_
  rw [countP_append, ← hi]
  cases ha : a.isCollect with
  | false =>
    rw [R.all_step hs ha]
    simp [ha]
  | true =>
    cases a with
    | snapshotCollect functionName =>
      obtain ⟨d, -, heq⟩ := R.all_collect hs
      rw [heq]
      simp [ha]
    | _ => cases ha

/-- Where the record of a snapshot comes from: the run is cut at its second critical section,
and the records up to it are those of the state before, followed by what it read. -/
theorem published {P : System → Action → Prop} {as₁ as₂ : List Action} {functionName : PendingModuleKey → Option String}
    {s : System} {snap : Snapshot} (h : Run (fun s a s' => P s a ∧ s.step a = some s') (System.new cfg)
      (as₁ ++ .snapshotCollect functionName :: as₂) s) (hsnap : s.taken[as₁.countP Action.isCollect]? = some snap) :
    ∃ s₁ s₂ d, Run (fun s a s' => P s a ∧ s.step a = some s') (System.new cfg) as₁ s₁ ∧
      P s₁ (.snapshotCollect functionName) ∧ s₁.phase = .drained d ∧
      s₁.step (.snapshotCollect functionName) = some s₂ ∧
      (s.taken.take (as₁.countP Action.isCollect + 1)).map R.ofSnapshot = R.all s₂ ∧
      R.ofSnapshot snap = R.ofJoining d (s₁.timeline.collectLocked functionName d.execs).2
        (startJoining d (s₁.timeline.collectLocked functionName d.execs).2) := by
  obtain ⟨s₁, s₂, hr, ⟨hP, ha⟩, hr'⟩ := h.split
  obtain ⟨d, hd, heq⟩ := R.all_collect (System.step_spec ha)
  have hlen : (R.all s₁).length = as₁.countP Action.isCollect :=
    R.length_all (hr.mono fun _ _ _ h => h.2)
  -- what was recorded by then is the beginning of what is recorded now
  have hpre : R.all s₂ <+: R.all s :=
    hr'.record_mono fun s a s' h => R.all_mono (System.step_spec h.2)
  obtain ⟨hlt, -⟩ := List.getElem?_eq_some_iff.mp hsnap
  have htake : (s.taken.take (as₁.countP Action.isCollect + 1)).map R.ofSnapshot = R.all s₂ := by
    rw [prefix_iff_eq_take.mp hpre, heq, List.length_append, length_singleton, hlen,
      all, take_append_of_le_length, map_take]
    rw [length_map]
    exact hlt
  refine ⟨s₁, s₂, d, hr, hP, hd, ha, htake, ?_⟩
  have hlast := congrArg (·[as₁.countP Action.isCollect]?) htake
  rw [heq, ← hlen, getElem?_concat_length, hlen, getElem?_map, getElem?_take_of_succ, hsnap] at hlast
  exact Option.some.inj hlast

end SnapshotRecord

end PerfAgent.Gpu
