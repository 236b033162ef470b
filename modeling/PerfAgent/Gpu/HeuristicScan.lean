import PerfAgent.Gpu.LaunchJoin

/-!
# The heuristic join as a scan of the cached launches

An execution without a correlation value is joined through an index that is grouped, sorted and
searched.  What the round does for it is said here by the launches as they are cached, in any
order: which of them are of the execution's process, of its queue and kernel, and in the window
before it.

An execution that names no process has none in common with any launch, not even with a launch
that names none either.  The join is refused all the same, and `CrossProcessHeuristicBlockedCount`
counts every refusal that only the process is the reason for.
-/

namespace PerfAgent.Gpu

open List

variable (exec : GPUKernelExec) (windowNs : Nat) (l : GPUKernelLaunch)

def ofProcess : Bool :=
  exec.correlation.pid != 0 && decide (launchProcessID l = exec.correlation.pid)

def ofKernel : Bool :=
  decide (queueKeyOf l.queue = queueKeyOf exec.queue) && decide (l.kernelName = exec.kernelName)

def isCandidate : Bool := ofProcess exec l && ofKernel exec l

def qualifies : Bool := isCandidate exec l && inJoinWindow exec windowNs l

def qualifiesElsewhere : Bool :=
  !ofProcess exec l && ofKernel exec l && inJoinWindow exec windowNs l

/-- What a round of the join does for an execution without a correlation value, by a scan of the
launches. -/
structure JoinsAsScan (entries : List GPUKernelLaunch) (j j' : Joining) (v : ExecutionView) :
    Prop where
  found : v.launch.isSome = true ↔ ∃ l ∈ entries, qualifies exec windowNs l = true
  latest : ∀ l, v.launch = some l → l ∈ entries ∧ qualifies exec windowNs l = true ∧
    ∀ l' ∈ entries, qualifies exec windowNs l' = true → l'.timeNs ≤ l.timeNs
  ambiguous : v.ambiguous = true ↔ 1 < entries.countP (qualifies exec windowNs)
  outOfWindow : j'.stats.outOfWindowDropCount = j.stats.outOfWindowDropCount +
    (entries.any (fun l => isCandidate exec l && decide (l.timeNs ≤ exec.startNs)) &&
      !entries.any (qualifies exec windowNs)).toNat
  blocked : j'.stats.crossProcessHeuristicBlockedCount = j.stats.crossProcessHeuristicBlockedCount +
      (!entries.any (qualifies exec windowNs) && entries.any (qualifiesElsewhere exec windowNs)).toNat

/-! ## The groups of the index -/

section Groups

variable {K : Type} [DecidableEq K] (entries : List GPUKernelLaunch) (keyOf : GPUKernelLaunch → K)
  (k : K) (p : GPUKernelLaunch → Bool)

theorem countP_groupLaunchesByTime : (groupLaunchesByTime entries keyOf k).countP p =
      entries.countP fun l => p l && decide (keyOf l = k) := by
  rw [groupLaunchesByTime, (perm_insertionSort _ _).countP_eq, countP_filter]

theorem any_groupLaunchesByTime :
    (groupLaunchesByTime entries keyOf k).any p = entries.any fun l => decide (keyOf l = k) && p l := by
  rw [Bool.eq_iff_iff]
  simp only [any_eq_true, mem_groupLaunchesByTime, Bool.and_eq_true, decide_eq_true_eq]
  exact ⟨fun ⟨l, ⟨hl, hk⟩, hp⟩ => ⟨l, hl, hk, hp⟩, fun ⟨l, hl, hk, hp⟩ => ⟨l, ⟨hl, hk⟩, hp⟩⟩

theorem isSome_launch_group : (findLaunchHeuristic (groupLaunchesByTime entries keyOf k) exec windowNs).launch.isSome =
      entries.any fun l => decide (keyOf l = k) && inJoinWindow exec windowNs l := by
  have hs := pairwise_groupLaunchesByTime entries keyOf k
  rw [← any_groupLaunchesByTime]
  cases hany : (groupLaunchesByTime entries keyOf k).any (inJoinWindow exec windowNs) with
  | false =>
    have hcount : (groupLaunchesByTime entries keyOf k).countP (inJoinWindow exec windowNs) = 0 :=
      countP_eq_zero.mpr (any_eq_false.mp hany)
    rw [findLaunchHeuristic_eq exec windowNs hs, if_pos hcount]
    rfl
  | true =>
    obtain ⟨l, hl, hwindow⟩ := any_eq_true.mp hany
    have hcount : (groupLaunchesByTime entries keyOf k).countP (inJoinWindow exec windowNs) ≠ 0 :=
      fun h => countP_eq_zero.mp h l hl hwindow
    have hle : decide (l.timeNs ≤ exec.startNs) = true := (Bool.and_eq_true_iff.mp hwindow).1
    rw [findLaunchHeuristic_eq exec windowNs hs, if_neg hcount, getLast?_isSome]
    exact ne_nil_of_mem (mem_filter.mpr ⟨hl, hle⟩)

end Groups

variable {exec}

theorem candidateGroupKey_eq (hpid : exec.correlation.pid ≠ 0) (l : GPUKernelLaunch) :
    decide (({ pid := launchProcessID l, queue := queueKeyOf l.queue, kernelName := l.kernelName } :
        CandidateGroupKey) =
      { pid := exec.correlation.pid, queue := queueKeyOf exec.queue,
        kernelName := exec.kernelName }) = isCandidate exec l := by
  rw [isCandidate, ofProcess, ofKernel, bne_iff_ne.mpr hpid, Bool.true_and, ← Bool.decide_and,
    ← Bool.decide_and, decide_eq_decide, CandidateGroupKey.mk.injEq]

theorem anyProcessGroupKey_eq :
    decide (({ queue := queueKeyOf l.queue, kernelName := l.kernelName } : AnyProcessGroupKey) =
      { queue := queueKeyOf exec.queue, kernelName := exec.kernelName }) = ofKernel exec l := by
  rw [ofKernel, ← Bool.decide_and, decide_eq_decide, AnyProcessGroupKey.mk.injEq]

theorem isSome_ownLaunch (hpid : exec.correlation.pid ≠ 0) (entries : List GPUKernelLaunch) :
    (findLaunchHeuristic (buildHeuristicCandidateIndex entries
        { pid := exec.correlation.pid, queue := queueKeyOf exec.queue,
          kernelName := exec.kernelName }) exec windowNs).launch.isSome =
      entries.any (qualifies exec windowNs) := by
  rw [buildHeuristicCandidateIndex, isSome_launch_group]
  simp only [candidateGroupKey_eq hpid]
  rfl

theorem countP_ownLaunches (hpid : exec.correlation.pid ≠ 0) (entries : List GPUKernelLaunch) :
    (buildHeuristicCandidateIndex entries
        { pid := exec.correlation.pid, queue := queueKeyOf exec.queue,
          kernelName := exec.kernelName }).countP (inJoinWindow exec windowNs) =
      entries.countP (qualifies exec windowNs) := by
  rw [buildHeuristicCandidateIndex, countP_groupLaunchesByTime]
  simp only [candidateGroupKey_eq hpid]
  exact congrArg (List.countP · entries) (funext fun l => Bool.and_comm _ _)

theorem flags_ownLaunch (hpid : exec.correlation.pid ≠ 0) (entries : List GPUKernelLaunch) :
    let m := findLaunchHeuristic (buildHeuristicCandidateIndex entries
      { pid := exec.correlation.pid, queue := queueKeyOf exec.queue,
        kernelName := exec.kernelName }) exec windowNs
    m.ambiguous = decide (1 < entries.countP (qualifies exec windowNs)) ∧
      (entries.any (qualifies exec windowNs) = false → m.outOfWindow =
        entries.any fun l => isCandidate exec l && decide (l.timeNs ≤ exec.startNs)) := by
  have hs : (buildHeuristicCandidateIndex entries
      { pid := exec.correlation.pid, queue := queueKeyOf exec.queue,
        kernelName := exec.kernelName }).Pairwise fun a b => a.timeNs ≤ b.timeNs :=
    pairwise_groupLaunchesByTime _ _ _
  dsimp only
  rw [findLaunchHeuristic_eq exec windowNs hs, countP_ownLaunches windowNs hpid]
  by_cases hcount : entries.countP (qualifies exec windowNs) = 0
  · rw [if_pos hcount, hcount]
    refine ⟨rfl, fun _ => ?_⟩
    have hempty : ∀ l : List GPUKernelLaunch, (!(preceding exec l).isEmpty) =
        l.any fun l => decide (l.timeNs ≤ exec.startNs) := fun l => by
      rw [preceding, Bool.eq_iff_iff]
      simp
    rw [hempty, buildHeuristicCandidateIndex, any_groupLaunchesByTime]
    simp only [candidateGroupKey_eq hpid]
  · rw [if_neg hcount]
    refine ⟨rfl, fun hnone => ?_⟩
    exact absurd (countP_eq_zero.mpr (any_eq_false.mp hnone)) hcount

theorem isSome_anyLaunch (entries : List GPUKernelLaunch) : (findLaunchHeuristic (buildAnyProcessCandidateIndex entries
        { queue := queueKeyOf exec.queue, kernelName := exec.kernelName })
        exec windowNs).launch.isSome =
      entries.any fun l => ofKernel exec l && inJoinWindow exec windowNs l := by
  rw [buildAnyProcessCandidateIndex, isSome_launch_group]
  simp only [anyProcessGroupKey_eq]

theorem any_kernel_of_none {entries : List GPUKernelLaunch} (hnone : entries.any (qualifies exec windowNs) = false) :
    (entries.any fun l => ofKernel exec l && inJoinWindow exec windowNs l) =
      entries.any (qualifiesElsewhere exec windowNs) := by
  rw [Bool.eq_iff_iff]
  simp only [any_eq_true]
  refine exists_congr fun l => and_congr_right fun hl => ?_
  have hl' := any_eq_false.mp hnone l hl
  rw [qualifiesElsewhere]
  cases hp : ofProcess exec l with
  | false => simp
  | true =>
    rw [qualifies, isCandidate, hp, Bool.true_and] at hl'
    simp [hl']

variable (pid : Nat)

theorem JoinsAsScan.of_none {entries : List GPUKernelLaunch} {j j' : Joining} {v : ExecutionView}
    (hnone : entries.any (qualifies exec windowNs) = false) (hlaunch : v.launch = none)
    (hambiguous : v.ambiguous = false)
    (hwindow : j'.stats.outOfWindowDropCount = j.stats.outOfWindowDropCount +
      (entries.any fun l => isCandidate exec l && decide (l.timeNs ≤ exec.startNs)).toNat)
    (hblocked : j'.stats.crossProcessHeuristicBlockedCount = j.stats.crossProcessHeuristicBlockedCount +
        (!entries.any (qualifies exec windowNs) && entries.any (qualifiesElsewhere exec windowNs)).toNat) :
    JoinsAsScan exec windowNs entries j j' v where
  found := by
    rw [hlaunch, ← any_eq_true, hnone]
    rfl
  latest l hl := by
    rw [hlaunch] at hl
    cases hl
  ambiguous := by
    have hcount : entries.countP (qualifies exec windowNs) = 0 :=
      countP_eq_zero.mpr (any_eq_false.mp hnone)
    rw [hambiguous, hcount]
    simp
  outOfWindow := by rw [hnone, Bool.not_false, Bool.and_true, hwindow]
  blocked := hblocked

namespace Joining

theorem noteBlockedHeuristic_scan {entries : List GPUKernelLaunch}
    (hnone : entries.any (qualifies exec windowNs) = false) (j : Joining) :
    j.noteBlockedHeuristic entries windowNs exec =
      { j with stats := { j.stats with
        crossProcessHeuristicBlockedCount := j.stats.crossProcessHeuristicBlockedCount +
          (!entries.any (qualifies exec windowNs) && entries.any (qualifiesElsewhere exec windowNs)).toNat } } := by
  rw [hnone, ← any_kernel_of_none windowNs hnone, noteBlockedHeuristic]
  simp only [isSome_anyLaunch]
  cases entries.any fun l => ofKernel exec l && inJoinWindow exec windowNs l <;> rfl

/-- A round for an execution without a correlation value joins it as a scan of the launches
does. -/
theorem joinExec_scan {j : Joining} (cache : LaunchCache) {r : ExecRow} {rest : List ExecRow}
    {entries : List GPUKernelLaunch} (hrest : j.rest = r :: rest)
    (habsent : r.exec.correlation.present = false) (hentries : j.cacheEntries = some entries) :
    ∃ j' cache' v, j.joinExec cache windowNs = some (j', cache') ∧ j'.views = j.views ++ [v] ∧
      v.exec = r.exec ∧ JoinsAsScan r.exec windowNs entries j j' v := by
  have hround : j.joinExec cache windowNs =
      some (({ j with rest := rest }.tally r).joinHeuristic cache entries windowNs r) := by
    rw [joinExec, hrest]
    simp [habsent, hentries, tally]
  rw [hround]
  unfold joinHeuristic
  dsimp only
  split_ifs with hpid
  · -- no process is named, so no launch is a candidate
    have hcandidate : ∀ l, isCandidate r.exec l = false := fun l => by
      rw [isCandidate, ofProcess, hpid]
      rfl
    have hnone : entries.any (qualifies r.exec windowNs) = false :=
      any_eq_false.mpr fun l _ => by rw [qualifies, hcandidate]; simp
    refine ⟨_, _, r.view, rfl, ?_, rfl, .of_none windowNs hnone rfl rfl ?_ ?_⟩
    · rw [noteBlockedHeuristic_scan windowNs hnone]
      rfl
    · rw [noteBlockedHeuristic_scan windowNs hnone]
      simp only [hcandidate]
      simp [emit, unmatched, tally]
    · rw [noteBlockedHeuristic_scan windowNs hnone]
      rfl
  · have hsome := isSome_ownLaunch windowNs hpid entries
    obtain ⟨hambiguous, hwindow⟩ := flags_ownLaunch windowNs hpid entries
    split
    · next l hl =>
        rw [hl, Option.isSome_some] at hsome
        obtain ⟨hmem, hin, hlatest⟩ :=
          findLaunchHeuristic_spec r.exec windowNs (pairwise_groupLaunchesByTime _ _ _) hl
        obtain ⟨hentry, hkey⟩ := (mem_groupLaunchesByTime _ _ _).mp hmem
        have hcandidate : isCandidate r.exec l = true := by
          rw [← candidateGroupKey_eq hpid, decide_eq_true hkey]
        refine ⟨_, _, _, rfl, rfl, rfl, ?_, ?_, ?_, ?_, ?_⟩
        · rw [← any_eq_true, ← hsome]
          rfl
        · intro l' hl'
          cases hl'
          refine ⟨hentry, Bool.and_eq_true_iff.mpr ⟨hcandidate, hin⟩, fun l' hl' hq => ?_⟩
          obtain ⟨hcandidate', hin'⟩ := Bool.and_eq_true_iff.mp hq
          rw [← candidateGroupKey_eq hpid, decide_eq_true_eq] at hcandidate'
          exact hlatest l' ((mem_groupLaunchesByTime _ _ _).mpr ⟨hl', hcandidate'⟩)
            (of_decide_eq_true (Bool.and_eq_true_iff.mp hin').1)
        · rw [← decide_eq_true_eq (p := 1 < _), ← hambiguous]
        · rw [← hsome, Bool.not_true, Bool.and_false]
          rfl
        · rw [← hsome]
          rfl
    · next hl =>
        rw [hl, Option.isSome_none] at hsome
        have hnone := hsome.symm
        refine ⟨_, _, r.view, rfl, ?_, rfl, .of_none windowNs hnone rfl rfl ?_ ?_⟩
        · rw [noteBlockedHeuristic_scan windowNs hnone]
          rfl
        · rw [noteBlockedHeuristic_scan windowNs hnone]
          simp only [emit, unmatched, tally, hwindow hnone]
        · rw [noteBlockedHeuristic_scan windowNs hnone]
          rfl

def oneExec : ExecRow :=
  { exec := { correlation := { pid := pid }, kernelName := "k", startNs := 10 } }

def joiningOne (entries : List GPUKernelLaunch) : Joining :=
  { rest := [oneExec pid], cacheEntries := some entries, stats := {}, pcJoin := {} }

def launchOfAt (timeNs : Nat) : GPUKernelLaunch :=
  { kernelName := "k", timeNs := timeNs, launch := { pid := pid } }

theorem joinExec_scan_two : ∃ (j' : Joining) (cache' : LaunchCache) (v : ExecutionView),
      (joiningOne 7 [launchOfAt 7 9, launchOfAt 8 10, launchOfAt 7 8, launchOfAt 7 5]).joinExec
          (newLaunchCache {}) 3 = some (j', cache') ∧
        v.launch.isSome = true ∧ v.ambiguous = true ∧
        j'.stats.crossProcessHeuristicBlockedCount = 0 := by
  obtain ⟨j', cache', v, hround, -, -, hscan⟩ :=
    joinExec_scan 3 (newLaunchCache {}) (j := joiningOne 7
      [launchOfAt 7 9, launchOfAt 8 10, launchOfAt 7 8, launchOfAt 7 5]) (r := oneExec 7) rfl
      (by decide +kernel) rfl
  refine ⟨j', cache', v, hround, hscan.found.mpr ?_, hscan.ambiguous.mpr ?_, hscan.blocked.trans ?_⟩
  · exact ⟨launchOfAt 7 9, mem_cons_self, by decide +kernel⟩
  · decide +kernel
  · decide +kernel

/-- A refused join is counted though no launch is of another process: neither the execution nor
the launch names one. -/
theorem not_blocked_by_other_process : ¬∀ (windowNs : Nat) (j j' : Joining) (cache cache' : LaunchCache) (r : ExecRow)
        (rest : List ExecRow) (entries : List GPUKernelLaunch),
      j.rest = r :: rest → r.exec.correlation.present = false → j.cacheEntries = some entries →
      j.joinExec cache windowNs = some (j', cache') →
      j'.stats.crossProcessHeuristicBlockedCount = j.stats.crossProcessHeuristicBlockedCount +
        (!entries.any (qualifies r.exec windowNs) && entries.any fun l =>
          decide (launchProcessID l ≠ r.exec.correlation.pid) && ofKernel r.exec l &&
            inJoinWindow r.exec windowNs l).toNat := by
  intro h
  obtain ⟨j', cache', v, hround, hviews, hexec, hscan⟩ :=
    joinExec_scan 0 (newLaunchCache {}) (j := joiningOne 0 [launchOfAt 0 9]) (r := oneExec 0) rfl
      (by decide +kernel) rfl
  have hcount := (h 0 _ j' _ cache' (oneExec 0) [] _ rfl (by decide +kernel) rfl hround).symm.trans hscan.blocked
  revert hcount
  decide +kernel

end Joining

end PerfAgent.Gpu
