import PerfAgent.Gpu.Snapshot

/-!
# What one round of the launch join does

The loop of `Snapshot` over its executions, one round at a time: `joinExec_spec` says which
view a round produces, why its launch is the one attached (`ExecutionView.Justified`), and
which counters move.  The two lookups are specified first.
-/

namespace PerfAgent.Gpu

open List

/-! ## The heuristic lookup -/

/-- The launch is not after the start of the execution, and not longer before it than the window
allows; a window of zero allows everything. -/
def inJoinWindow (exec : GPUKernelExec) (windowNs : Nat) (l : GPUKernelLaunch) : Bool :=
  decide (l.timeNs ≤ exec.startNs) && (windowNs == 0 || decide (exec.startNs - l.timeNs ≤ windowNs))

variable {l : GPUKernelLaunch}

def preceding (exec : GPUKernelExec) (candidates : List GPUKernelLaunch) : List GPUKernelLaunch :=
  candidates.filter fun l => l.timeNs ≤ exec.startNs

section Lookup

variable {candidates : List GPUKernelLaunch} (exec : GPUKernelExec) (windowNs : Nat)
  (hs : candidates.Pairwise fun a b => a.timeNs ≤ b.timeNs)
include hs

theorem insertionPoint_eq :
    (sortSearch candidates.length fun i => candidates[i]?.any fun l => l.timeNs > exec.startNs) =
        (preceding exec candidates).length ∧
      candidates.take (preceding exec candidates).length = preceding exec candidates := by
  have hnot : (fun l : GPUKernelLaunch => !decide (l.timeNs > exec.startNs)) =
      fun l => decide (l.timeNs ≤ exec.startNs) := by
    funext l
    rw [← decide_not, decide_eq_decide, Nat.not_lt]
  have hmono : candidates.Pairwise fun a b => decide (a.timeNs > exec.startNs) = true →
      decide (b.timeNs > exec.startNs) = true := by
    refine hs.imp fun {a b} hab ha => ?_
    simp only [decide_eq_true_eq] at ha ⊢
    omega
  have htake := take_countP_not hmono
  have hpoint := sortSearch_length hmono
  rw [hnot, countP_eq_length_filter] at htake hpoint
  exact ⟨hpoint, htake⟩

theorem lowerBound_eq (earliest : Nat) : (sortSearch (preceding exec candidates).length fun i =>
        candidates[i]?.any fun l => l.timeNs ≥ earliest) =
      (preceding exec candidates).countP fun l => !decide (l.timeNs ≥ earliest) := by
  have hmono : candidates.Pairwise fun a b => decide (a.timeNs ≥ earliest) = true →
      decide (b.timeNs ≥ earliest) = true := by
    refine hs.imp fun {a b} hab ha => ?_
    simp only [decide_eq_true_eq] at ha ⊢
    omega
  have hle : (preceding exec candidates).length ≤ candidates.length := length_filter_le _ _
  rw [sortSearch_take hmono hle, (insertionPoint_eq exec hs).2]

omit hs in
theorem countP_preceding {q : GPUKernelLaunch → Bool}
    (hq : ∀ l, l.timeNs ≤ exec.startNs → q l = inJoinWindow exec windowNs l) :
    (preceding exec candidates).countP q = candidates.countP (inJoinWindow exec windowNs) := by
  rw [preceding, countP_filter]
  refine congrArg (List.countP · candidates) (funext fun l => ?_)
  by_cases hl : l.timeNs ≤ exec.startNs
  · rw [hq l hl, decide_eq_true hl, Bool.and_true]
  · rw [decide_eq_false hl, Bool.and_false, inJoinWindow, decide_eq_false hl, Bool.false_and]

theorem inWindow_eq : (preceding exec candidates).length - (if windowNs > 0 then
          sortSearch (preceding exec candidates).length fun i => candidates[i]?.any fun l =>
            l.timeNs ≥ if exec.startNs > windowNs then exec.startNs - windowNs else 0
        else 0) =
      candidates.countP (inJoinWindow exec windowNs) := by
  by_cases hw : windowNs = 0
  · rw [if_neg (by omega), Nat.sub_zero, ← countP_preceding (q := fun _ => true), countP_true]
    intro l hl
    rw [inJoinWindow, hw, decide_eq_true hl]
    rfl
  · rw [if_pos (by omega), lowerBound_eq exec hs]
    generalize hearliest : (if exec.startNs > windowNs then _ else _) = earliest
    have hlen := (preceding exec candidates).length_eq_countP_add_countP fun l =>
      decide (l.timeNs ≥ earliest)
    rw [countP_preceding exec windowNs (q := fun l => decide (l.timeNs ≥ earliest))] at hlen
    · simp only [decide_not, Bool.decide_eq_true] at hlen
      omega
    · intro l hl
      rw [inJoinWindow, beq_false_of_ne hw, Bool.false_or, decide_eq_true hl, Bool.true_and, decide_eq_decide]
      split_ifs at hearliest <;> omega

theorem findLaunchHeuristic_eq : findLaunchHeuristic candidates exec windowNs =
      if candidates.countP (inJoinWindow exec windowNs) = 0 then
        { outOfWindow := !(preceding exec candidates).isEmpty }
      else
        { launch := (preceding exec candidates).getLast?
          ambiguous := 1 < candidates.countP (inJoinWindow exec windowNs) } := by
  obtain ⟨hpoint, htake⟩ := insertionPoint_eq exec hs
  have hin := inWindow_eq exec windowNs hs
  unfold findLaunchHeuristic
  simp only [hpoint, hin]
  by_cases hnone : preceding exec candidates = []
  · rw [hnone, length_nil, Nat.zero_sub] at hin
    rw [hnone, length_nil, if_pos rfl, if_pos hin.symm]
    rfl
  · have hpos : (preceding exec candidates).length ≠ 0 := by
      rwa [ne_eq, length_eq_zero_iff]
    have hlast : candidates[(preceding exec candidates).length - 1]? = (preceding exec candidates).getLast? := by
      have hget := getElem?_take_of_lt (l := candidates) (Nat.sub_one_lt hpos)
      rw [htake] at hget
      rw [getLast?_eq_getElem?, hget]
    rw [if_neg hpos, hlast, isEmpty_eq_false_iff.mpr hnone]
    rfl

/-- The lookup answers with a candidate that precedes the execution and lies in the window, and
with the latest such. -/
theorem findLaunchHeuristic_spec (h : (findLaunchHeuristic candidates exec windowNs).launch = some l) :
    l ∈ candidates ∧ inJoinWindow exec windowNs l = true ∧
      ∀ l' ∈ candidates, l'.timeNs ≤ exec.startNs → l'.timeNs ≤ l.timeNs := by
  rw [findLaunchHeuristic_eq exec windowNs hs] at h
  by_cases hcount : candidates.countP (inJoinWindow exec windowNs) = 0
  · rw [if_pos hcount] at h
    cases h
  rw [if_neg hcount] at h
  obtain ⟨front, hfront⟩ := getLast?_eq_some_iff.mp h
  have hl : l ∈ preceding exec candidates := by rw [hfront]; simp
  obtain ⟨hmem, hle⟩ := mem_filter.mp hl
  have hlatest : ∀ l' ∈ candidates, l'.timeNs ≤ exec.startNs → l'.timeNs ≤ l.timeNs := by
    intro l' hl' hle'
    have hsorted : (front ++ [l]).Pairwise fun a b => a.timeNs ≤ b.timeNs :=
      hfront ▸ hs.sublist filter_sublist
    have hmem' : l' ∈ front ++ [l] :=
      hfront ▸ mem_filter.mpr ⟨hl', decide_eq_true hle'⟩
    rcases mem_append.mp hmem' with hmem' | hmem'
    · exact (pairwise_append.mp hsorted).2.2 l' hmem' l (mem_singleton_self l)
    · rw [mem_singleton.mp hmem']
  -- something is in the window, and the answer is not before it
  obtain ⟨m, hm, hwindow⟩ := countP_pos_iff.mp (Nat.pos_of_ne_zero hcount)
  refine ⟨hmem, ?_, hlatest⟩
  simp only [inJoinWindow, Bool.and_eq_true, Bool.or_eq_true, decide_eq_true_eq, beq_iff_eq] at *
  have := hlatest m hm hwindow.1
  omega

end Lookup

section Groups

variable {K : Type} [DecidableEq K] (entries : List GPUKernelLaunch) (keyOf : GPUKernelLaunch → K) (k : K)

theorem mem_groupLaunchesByTime : l ∈ groupLaunchesByTime entries keyOf k ↔ l ∈ entries ∧ keyOf l = k := by
  rw [groupLaunchesByTime, mem_insertionSort, mem_filter, decide_eq_true_eq]

theorem pairwise_groupLaunchesByTime :
    (groupLaunchesByTime entries keyOf k).Pairwise fun a b => a.timeNs ≤ b.timeNs := by
  have : Std.Total fun a b : GPUKernelLaunch => a.timeNs ≤ b.timeNs := ⟨fun a b => Nat.le_total _ _⟩
  have : IsTrans GPUKernelLaunch fun a b => a.timeNs ≤ b.timeNs := ⟨fun a b c => Nat.le_trans⟩
  exact pairwise_insertionSort _ _

end Groups

/-! ## One round -/

/-- Why a view has the launch it has: `launches` is what the cache held when the exact
lookup was made, `entries` what the heuristic read. -/
def ExecutionView.Justified (launches : CorrelationID → Option GPUKernelLaunch)
    (entries : Option (List GPUKernelLaunch)) (windowNs : Nat) (v : ExecutionView) : Prop :=
  match v.join with
  | .unjoined => v.launch = none
  | .exact => ∃ l, v.launch = some l ∧ launches v.exec.correlation = some l
  | .heuristic => ∃ l es, v.launch = some l ∧ entries = some es ∧ l ∈ es ∧
      v.exec.correlation.present = false ∧ v.exec.correlation.pid ≠ 0 ∧
      launchProcessID l = v.exec.correlation.pid ∧ queueKeyOf l.queue = queueKeyOf v.exec.queue ∧
      l.kernelName = v.exec.kernelName ∧ l.timeNs ≤ v.exec.startNs ∧
      (0 < windowNs → v.exec.startNs - l.timeNs ≤ windowNs)

def LaunchCache.launchOf (c : LaunchCache) (id : CorrelationID) : Option GPUKernelLaunch :=
  (c.store.byKey.find? id).map CacheEntry.launch

@[simp] theorem LaunchCache.launchOf_markJoined (c : LaunchCache) (id k : CorrelationID) :
    (c.markJoined id).launchOf k = c.launchOf k := by
  rw [launchOf, launchOf, find?_markJoined, Option.map_map]
  congr 1
  funext e
  simp only [Function.comp_apply]
  split <;> rfl

/-- A round takes the row `r` and produces the view `v`. -/
structure JoinRound (j : Joining) (cache : LaunchCache) (windowNs : Nat) (j' : Joining)
    (cache' : LaunchCache) (r : ExecRow) (v : ExecutionView) : Prop where
  rest : j.rest = r :: j'.rest
  views : j'.views = j.views ++ [v]
  entries : j'.cacheEntries = j.cacheEntries
  launches : cache' = cache ∨ ∃ id, cache' = cache.markJoined id
  view : v = { r.view with
    launch := v.launch, join := v.join, heuristic := v.heuristic, ambiguous := v.ambiguous }
  justified : v.Justified cache.launchOf j.cacheEntries windowNs
  pcJoin : j'.pcJoin = { j.pcJoin with
    graphRefusedAttributions := j.pcJoin.graphRefusedAttributions + r.refused.toNat }
  graphRefused : j'.executionsGraphRefused = j.executionsGraphRefused + r.graphRefused.toNat
  serialized : j'.serializedCount = j.serializedCount + (r.serialization == .serialized).toNat
  notSerialized : j'.notSerializedCount = j.notSerializedCount + (r.serialization == .notSerialized).toNat
  serializationUnknown :
    j'.serializationUnknownCount = j.serializationUnknownCount + (r.serialization == .unknown).toNat
  exactJoins : j'.stats.exactExecutionJoinCount = j.stats.exactExecutionJoinCount + (v.join == .exact).toNat
  heuristicJoins : j'.stats.heuristicExecutionJoinCount =
    j.stats.heuristicExecutionJoinCount + (v.join == .heuristic).toNat
  unmatched : j'.stats.unmatchedExecutionCount = j.stats.unmatchedExecutionCount + (v.join == .unjoined).toNat

theorem JoinRound.of_tally {j j' : Joining} {cache cache' : LaunchCache} {windowNs : Nat}
    {r : ExecRow} {rest : List ExecRow} {v : ExecutionView} (hr : j.rest = r :: rest)
    (hj : j' = { { j with rest := rest }.tally r with
      stats := j'.stats, matched := j'.matched, views := j.views ++ [v] })
    (hc : cache' = cache ∨ ∃ id, cache' = cache.markJoined id)
    (hv : v = { r.view with
      launch := v.launch, join := v.join, heuristic := v.heuristic, ambiguous := v.ambiguous })
    (hjust : v.Justified cache.launchOf j.cacheEntries windowNs)
    (he : j'.stats.exactExecutionJoinCount = j.stats.exactExecutionJoinCount + (v.join == .exact).toNat)
    (hh : j'.stats.heuristicExecutionJoinCount = j.stats.heuristicExecutionJoinCount + (v.join == .heuristic).toNat)
    (hu : j'.stats.unmatchedExecutionCount = j.stats.unmatchedExecutionCount + (v.join == .unjoined).toNat) :
    JoinRound j cache windowNs j' cache' r v where
  rest := by rw [hj, hr]; rfl
  views := by rw [hj]
  entries := by rw [hj]; rfl
  launches := hc
  view := hv
  justified := hjust
  pcJoin := by rw [hj]; rfl
  graphRefused := by rw [hj]; rfl
  serialized := by rw [hj]; rfl
  notSerialized := by rw [hj]; rfl
  serializationUnknown := by
    rw [hj]
    change _ + (!(r.serialization == .serialized) && !(r.serialization == .notSerialized)).toNat = _
    cases r.serialization <;> rfl
  exactJoins := he
  heuristicJoins := hh
  unmatched := hu

theorem Joining.noteBlockedHeuristic_eq (j : Joining) (entries : List GPUKernelLaunch)
    (windowNs : Nat) (exec : GPUKernelExec) :
    ∃ n, j.noteBlockedHeuristic entries windowNs exec =
      { j with stats := { j.stats with crossProcessHeuristicBlockedCount := n } } := by
  simp only [noteBlockedHeuristic]
  split
  · exact ⟨_, rfl⟩
  · exact ⟨_, rfl⟩

theorem Joining.joinExec_spec {j j' : Joining} {cache cache' : LaunchCache} {windowNs : Nat}
    (h : j.joinExec cache windowNs = some (j', cache')) :
    ∃ r v, JoinRound j cache windowNs j' cache' r v := by
  unfold joinExec at h
  split at h
  · cases h
  next r rest hrest =>
  refine ⟨r, ?_⟩
  dsimp only at h
  split at h
  · -- a correlation: the cache has its launch, or nothing does
    rw [Option.some.injEq, joinExact] at h
    cases hf : (cache.store.byKey.find? r.exec.correlation).map CacheEntry.launch with
    | some l =>
      simp only [LaunchCache.get, hf, Prod.mk.injEq] at h
      obtain ⟨rfl, rfl⟩ := h
      exact ⟨_, .of_tally hrest rfl (.inr ⟨_, rfl⟩) rfl ⟨l, rfl, hf⟩ rfl rfl rfl⟩
    | none =>
      simp only [LaunchCache.get, hf, Prod.mk.injEq] at h
      obtain ⟨rfl, rfl⟩ := h
      exact ⟨_, .of_tally hrest rfl (.inr ⟨_, rfl⟩) rfl rfl rfl rfl rfl⟩
  · next habsent =>
    obtain ⟨entries, hentries, heq⟩ := Option.map_eq_some_iff.mp h
    replace hentries : j.cacheEntries = some entries := hentries
    simp only [joinHeuristic] at heq
    split at heq
    · -- no process
      obtain ⟨n, hn⟩ := noteBlockedHeuristic_eq (unmatched _) entries windowNs r.exec
      rw [hn, Prod.mk.injEq] at heq
      obtain ⟨rfl, rfl⟩ := heq
      exact ⟨_, .of_tally hrest rfl (.inl rfl) rfl rfl rfl rfl rfl⟩
    next hpid =>
    split at heq
    · next l hl =>
        rw [Prod.mk.injEq] at heq
        obtain ⟨rfl, rfl⟩ := heq
        obtain ⟨hmem, hwindow, -⟩ :=
          findLaunchHeuristic_spec _ _ (pairwise_groupLaunchesByTime _ _ _) hl
        simp only [inJoinWindow, Bool.and_eq_true, Bool.or_eq_true, decide_eq_true_eq, beq_iff_eq] at hwindow
        obtain ⟨hin, hkey⟩ := (mem_groupLaunchesByTime _ _ _).mp hmem
        simp only [CandidateGroupKey.mk.injEq] at hkey
        refine ⟨_, .of_tally hrest rfl (.inr ⟨_, rfl⟩) rfl ?_ rfl rfl rfl⟩
        exact ⟨l, entries, rfl, hentries, hin, Bool.eq_false_of_not_eq_true habsent, hpid, hkey.1,
          hkey.2.1, hkey.2.2, hwindow.1,
          fun hpos => hwindow.2.resolve_left (Nat.ne_of_gt hpos)⟩
    · obtain ⟨n, hn⟩ := noteBlockedHeuristic_eq _ entries windowNs r.exec
      rw [hn, Prod.mk.injEq] at heq
      obtain ⟨rfl, rfl⟩ := heq
      exact ⟨_, .of_tally hrest rfl (.inl rfl) rfl rfl rfl rfl rfl⟩

end PerfAgent.Gpu
