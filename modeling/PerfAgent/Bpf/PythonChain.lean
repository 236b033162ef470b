import PerfAgent.Bpf.PythonWalk

/-!
# The frames of a Python chain, once and in order

`SegmentRun` says what one dispatch finds from where it starts: the frames up to the next one that C
has entered, or up to where the chain ends, cannot be followed, or the record is full.  A dispatch
starts where the one before has left the cursor, so the dispatches of a sample take the chain apart
into its segments.

The counters follow from how the segments end.  A segment that ends with chain behind it counts as
abandoned, and the dispatch that takes it up again withdraws that.
-/

namespace PerfAgent.Bpf

open Function

/-! ## One segment -/

def pyPair (exec instr : UInt64) : InterpPair := ⟨interpIdPython, by decide, exec, instr⟩

inductive SegmentEnd where
  | chainEnd
  | broken (why : PyCnt)
  | boundary (prev : UInt64)
  | refused (pair : InterpPair)

def PyFrame.failure : PyFrame → Option PyCnt
  | .unreadable => some .frameReadFail
  | .implausibleFrame => some .implausibleOwner
  | .noExecutable => some .noneExecutable
  | .boundary _ => none
  | .code _ _ _ => none

/-- The frames from an address on, with the cursor of the record at `n`, and how they end. -/
inductive SegmentRun (env : PyEnv) (pi : PyProcInfo) : Nat → UInt64 → List InterpPair → SegmentEnd → Prop
  | chainEnd {n : Nat} : SegmentRun env pi n 0 [] .chainEnd
  | broken {n : Nat} {frame : UInt64} {why : PyCnt} :
      frame ≠ 0 → (pyReadFrame env pi frame).failure = some why → SegmentRun env pi n frame [] (.broken why)
  | boundary {n : Nat} {frame prev : UInt64} :
      frame ≠ 0 → pyReadFrame env pi frame = .boundary prev → SegmentRun env pi n frame [] (.boundary prev)
  | refused {n : Nat} {frame exec instr prev : UInt64} :
      frame ≠ 0 → pyReadFrame env pi frame = .code exec instr prev → maxFrames - 2 < n →
        SegmentRun env pi n frame [] (.refused (pyPair exec instr))
  | push {n : Nat} {frame exec instr prev : UInt64} {pairs : List InterpPair} {e : SegmentEnd} :
      frame ≠ 0 → pyReadFrame env pi frame = .code exec instr prev → ¬maxFrames - 2 < n →
        SegmentRun env pi (n + 2) prev pairs e → SegmentRun env pi n frame (pyPair exec instr :: pairs) e

namespace SegmentEnd

def refusedPairs : SegmentEnd → List InterpPair
  | .refused pair => [pair]
  | _ => []

def cursor : SegmentEnd → Option UInt64
  | .boundary prev => if prev ≠ 0 then some prev else none
  | _ => none

def counts : SegmentEnd → List PyCnt
  | .broken why => [why]
  | .refused _ => [.pushRefused, .chainTruncated]
  | .chainEnd => []
  | .boundary _ => []

end SegmentEnd

def pyCounts (c : PyCounters) (slots : List PyCnt) : PyCounters := slots.foldl pyCount c

theorem pyCounts_apply (c : PyCounters) (slots : List PyCnt) (slot : PyCnt) :
    pyCounts c slots slot = c slot + slots.count slot := by
  induction slots generalizing c with
  | nil => rfl
  | cons x xs ih =>
    show pyCounts (pyCount c x) xs slot = _
    rw [ih, List.count_cons]
    unfold pyCount
    by_cases h : slot = x
    · subst h
      rw [update_self, if_pos (beq_self_eq_true _)]
      omega
    · rw [update_of_ne h, if_neg (by simpa using Ne.symm h)]
      rfl

structure SegmentDone (s s' : PySeg) (pairs : List InterpPair) (e : SegmentEnd) : Prop where
  record : (s'.record, s'.nPcs) = pushPairs (s.record, s.nPcs) (pairs ++ e.refusedPairs)
  counters : s'.counters = pyCounts s.counters (List.replicate pairs.length .framesPushed ++ e.counts)
  stopped : s'.stopped = true
  active : ∀ {frame}, e.cursor = some frame → s'.state = pyChainActive ∧ s'.frame = frame
  done : e.cursor = none → s'.state = pyChainDone

namespace PySeg

variable {env : PyEnv} {pi : PyProcInfo} {s : PySeg}

theorem segmentDone_stop {e : SegmentEnd} {s' : PySeg} {state : UInt8}
    (hrecord : (s'.record, s'.nPcs) = pushPairs (s.record, s.nPcs) e.refusedPairs)
    (hcounters : s'.counters = pyCounts s.counters e.counts)
    (hactive : ∀ {frame}, e.cursor = some frame → state = pyChainActive ∧ s'.frame = frame)
    (hdone : e.cursor = none → state = pyChainDone) : SegmentDone s (s'.stop state).1 [] e :=
  ⟨hrecord, hcounters, rfl, hactive, hdone⟩

theorem step_cases (env : PyEnv) (pi : PyProcInfo) (s : PySeg) : ((s.step env pi).2 = true ∧
      ∃ e, SegmentRun env pi s.nPcs s.frame [] e ∧ SegmentDone s (s.step env pi).1 [] e) ∨
    ∃ exec instr prev, s.frame ≠ 0 ∧ pyReadFrame env pi s.frame = .code exec instr prev ∧ ¬maxFrames - 2 < s.nPcs ∧
      s.step env pi = ({ s with
        record := (s.record.recordPushInterp s.nPcs interpIdPython exec instr).1
        nPcs := s.nPcs + 2
        frame := prev
        counters := pyCount s.counters .framesPushed }, false) := by
  unfold step
  by_cases hframe : s.frame = 0
  · rw [if_pos hframe, hframe]
    exact .inl ⟨rfl, .chainEnd, .chainEnd, segmentDone_stop rfl rfl (fun h => by cases h) fun _ => rfl⟩
  · rw [if_neg hframe]
    have hbroken : ∀ {why}, (pyReadFrame env pi s.frame).failure = some why →
        ((s.count why).stop pyChainDone).2 = true ∧ ∃ e, SegmentRun env pi s.nPcs s.frame [] e ∧
          SegmentDone s ((s.count why).stop pyChainDone).1 [] e := fun hwhy =>
      ⟨rfl, .broken _, .broken hframe hwhy, segmentDone_stop rfl rfl (fun h => by cases h) fun _ => rfl⟩
    cases hread : pyReadFrame env pi s.frame with
    | unreadable => exact .inl (hbroken (congrArg PyFrame.failure hread))
    | implausibleFrame => exact .inl (hbroken (congrArg PyFrame.failure hread))
    | noExecutable => exact .inl (hbroken (congrArg PyFrame.failure hread))
    | boundary prev =>
      dsimp only
      split
      · next hprev =>
        refine .inl ⟨rfl, .boundary prev, .boundary hframe hread, segmentDone_stop rfl rfl ?_ ?_⟩
        · intro frame hcursor
          rw [SegmentEnd.cursor, if_pos hprev] at hcursor
          exact ⟨rfl, Option.some.inj hcursor⟩
        · intro hcursor
          rw [SegmentEnd.cursor, if_pos hprev] at hcursor
          cases hcursor
      · next hprev =>
        refine .inl ⟨rfl, .boundary prev, .boundary hframe hread, segmentDone_stop rfl rfl ?_ fun _ => rfl⟩
        intro frame hcursor
        rw [SegmentEnd.cursor, if_neg hprev] at hcursor
        cases hcursor
    | code exec instr prev =>
      dsimp only
      by_cases hfull : maxFrames - 2 < s.nPcs
      · rw [recordPushInterp_of_lt hfull]
        refine .inl ⟨rfl, .refused (pyPair exec instr), .refused hframe hread hfull, ?_⟩
        refine segmentDone_stop ?_ rfl (fun h => by cases h) fun _ => rfl
        show _ = pushPairs (s.record, s.nPcs) [pyPair exec instr]
        rw [pushPairs, recordPushInterp_of_lt hfull]
        rfl
      · refine .inr ⟨exec, instr, prev, hframe, rfl, hfull, ?_⟩
        unfold SampleRecord.recordPushInterp
        rw [dif_neg hfull]
        rfl

theorem loop_spec {turns : Nat} (h : maxFrames < s.nPcs + 2 * (turns + 1)) :
    ∃ pairs e, SegmentRun env pi s.nPcs s.frame pairs e ∧ SegmentDone s (loop env pi (turns + 1) s) pairs e := by
  induction turns generalizing s with
  | zero =>
    obtain ⟨hstop, e, hrun, hdone⟩ | ⟨exec, instr, prev, -, -, hroom, -⟩ := step_cases env pi s
    · refine ⟨[], e, hrun, ?_⟩
      rw [loop, if_pos hstop]
      exact hdone
    · exact absurd h (by unfold maxFrames at hroom ⊢; omega)
  | succ turns ih =>
    obtain ⟨hstop, e, hrun, hdone⟩ | ⟨exec, instr, prev, hframe, hread, hroom, hstep⟩ := step_cases env pi s
    · refine ⟨[], e, hrun, ?_⟩
      rw [loop, if_pos hstop]
      exact hdone
    · rw [loop, hstep, if_neg Bool.false_ne_true]
      dsimp only
      generalize hs : { s with
        record := (s.record.recordPushInterp s.nPcs interpIdPython exec instr).1
        nPcs := s.nPcs + 2
        frame := prev
        counters := pyCount s.counters .framesPushed } = s₁
      have hn : s₁.nPcs = s.nPcs + 2 := by rw [← hs]
      have hprev : s₁.frame = prev := by rw [← hs]
      obtain ⟨pairs, e, hrun, hdone⟩ := @ih s₁ (by rw [hn]; omega)
      rw [hn, hprev] at hrun
      refine ⟨pyPair exec instr :: pairs, e, .push hframe hread hroom hrun, ?_, ?_, hdone.stopped, hdone.active,
        hdone.done⟩
      · have hpush : (s₁.record, s₁.nPcs) =
            ((s.record.recordPushInterp s.nPcs interpIdPython exec instr).1,
              (s.record.recordPushInterp s.nPcs interpIdPython exec instr).2.1) := by
          rw [← hs]
          unfold SampleRecord.recordPushInterp
          rw [dif_neg hroom]
        rw [hdone.record, hpush]
        rfl
      · rw [hdone.counters, ← hs]
        rfl

end PySeg

structure SegmentLeft (st st' : WalkPersist) (maps maps' : PyMaps) (pairs : List InterpPair) (e : SegmentEnd) :
    Prop where
  record : (maps'.record, st'.nPcs) = pushPairs (maps.record, st.nPcs) (pairs ++ e.refusedPairs)
  active : ∀ {frame}, e.cursor = some frame → st'.chainState = pyChainActive ∧ st'.chainFrame = frame ∧
    maps'.counters = pyCount
      (pyCounts maps.counters (List.replicate pairs.length .framesPushed ++ e.counts)) .chainAbandoned
  done : e.cursor = none → st'.chainState = pyChainDone ∧
    maps'.counters = pyCounts maps.counters (List.replicate pairs.length .framesPushed ++ e.counts)

variable (st : WalkPersist)

@[simp] theorem chainState_setState (state : UInt8) : (st.setState state).chainState = state := by
  unfold WalkPersist.chainState WalkPersist.setState
  simp

@[simp] theorem chainState_setFrame (frame : UInt64) : (st.setFrame frame).chainState = st.chainState := by
  unfold WalkPersist.chainState WalkPersist.setFrame
  simp

@[simp] theorem chainFrame_setFrame (frame : UInt64) : (st.setFrame frame).chainFrame = frame := by
  unfold WalkPersist.chainFrame WalkPersist.setFrame
  simp

@[simp] theorem chainState_markDone : st.markDone.chainState = st.chainState := rfl

theorem pySegment_spec (env : PyEnv) (pi : PyProcInfo) (st : WalkPersist) (maps : PyMaps) (frame : UInt64) :
    ∃ pairs e, SegmentRun env pi st.nPcs frame pairs e ∧
      SegmentLeft st (pySegment env pi st maps frame).1 maps (pySegment env pi st maps frame).2 pairs e := by
  obtain ⟨pairs, e, hrun, hdone⟩ := @PySeg.loop_spec env pi
    { record := maps.record, frame := frame, nPcs := st.nPcs, state := pyChainDone, stopped := false,
      counters := maps.counters } 126 (by unfold maxFrames; omega)
  refine ⟨pairs, e, hrun, ?_⟩
  unfold pySegment
  rw [show maxFrames = 126 + 1 from rfl]
  dsimp only
  rw [if_pos hdone.stopped]
  refine ⟨?_, ?_, ?_⟩
  · rw [← hdone.record]
    split <;> rfl
  · intro frame' hcursor
    obtain ⟨hstate, hframe⟩ := hdone.active hcursor
    rw [if_pos hstate, hstate, hframe, hdone.counters]
    exact ⟨by simp, by simp, rfl⟩
  · intro hcursor
    have hstate := hdone.done hcursor
    rw [if_neg (by rw [hstate]; decide), hstate, hdone.counters]
    exact ⟨by simp, rfl⟩

/-! ## The dispatches of a sample -/

structure PyDispatch where
  st : WalkPersist
  record : SampleRecord

/-- What the module carries from one dispatch to the next, and the counters. -/
structure PySample where
  interpScratch : Vector UInt64 4
  interpDone : UInt32
  counters : PyCounters

namespace PySample

variable {env : PyEnv} {pid : UInt32} {s : PySample} {d : PyDispatch} {c₀ : PyCounters}

def start (counters : PyCounters) : PySample := ⟨Vector.replicate 4 0, 0, counters⟩

def entered (pid : UInt32) (s : PySample) (d : PyDispatch) : WalkPersist :=
  { d.st with pid := pid, interpScratch := s.interpScratch, interpDone := s.interpDone }

def served (env : PyEnv) (pid : UInt32) (s : PySample) (d : PyDispatch) : WalkPersist × PyMaps :=
  pyWalkSegment env (s.entered pid d) ⟨d.record, s.counters⟩

def dispatch (env : PyEnv) (pid : UInt32) (s : PySample) (d : PyDispatch) : PySample :=
  let r := s.served env pid d
  ⟨r.1.interpScratch, r.1.interpDone, r.2.counters⟩

theorem pyScratchFrame_lt : pyScratchFrame < 4 := by decide

theorem pyScratchState_lt : pyScratchState < 4 := by decide

def state (s : PySample) : UInt8 := (getElem s.interpScratch pyScratchState pyScratchState_lt).toUInt8

def Live (s : PySample) : Prop := s.state = pyChainActive

instance (s : PySample) : Decidable s.Live := inferInstanceAs (Decidable (_ = _))

def cursor (env : PyEnv) (pid : UInt32) (s : PySample) : Option (PyProcInfo × UInt64) :=
  if s.state = pyChainDone then none
  else
    match env.enabledProc pid with
    | none => none
    | some pi =>
      if s.state = pyChainUnstarted then (pyCurrentFrame env pi).toOption.map fun frame => (pi, frame)
      else some (pi, getElem s.interpScratch pyScratchFrame pyScratchFrame_lt)

def lookupFailures : List PyCnt := [.noProcInfo, .tssMiss, .tstateReadFail]

theorem pyCurrentFrame_error {pi : PyProcInfo} {slot : PyCnt} (h : pyCurrentFrame env pi = .error slot) :
    slot ∈ lookupFailures := by
  unfold pyCurrentFrame at h
  dsimp only at h
  split at h
  · cases h
    decide
  · split at h
    · cases h
      decide
    · split at h
      · split at h
        · cases h
          decide
        · split at h
          · cases h
            decide
          · cases h
      · cases h

structure FoundNone (env : PyEnv) (pid : UInt32) (s : PySample) (d : PyDispatch) : Prop where
  cursor : s.cursor env pid = none
  record : ((s.served env pid d).2.record, (s.served env pid d).1.nPcs) = (d.record, d.st.nPcs)
  state : (s.dispatch env pid d).state = pyChainDone
  counters : (s.dispatch env pid d).counters = s.counters ∧ (s.state = pyChainDone ∨ env.enabledProc pid = none) ∨
    s.state = pyChainUnstarted ∧ ∃ slot ∈ lookupFailures, (s.dispatch env pid d).counters = pyCount s.counters slot

/-- A dispatch that finds the chain, with the provisional count withdrawn if it takes it up again. -/
structure FoundChain (env : PyEnv) (pid : UInt32) (s : PySample) (d : PyDispatch) (pi : PyProcInfo) (frame : UInt64)
    (pairs : List InterpPair) (e : SegmentEnd) : Prop where
  cursor : s.cursor env pid = some (pi, frame)
  proc : env.enabledProc pid = some pi
  notDone : s.state ≠ pyChainDone
  run : SegmentRun env pi d.st.nPcs frame pairs e
  left : SegmentLeft d.st (s.served env pid d).1
    ⟨d.record, if s.state = pyChainUnstarted then s.counters else pyCountUndo s.counters .chainAbandoned⟩
    (s.served env pid d).2 pairs e

theorem dispatch_cases (env : PyEnv) (pid : UInt32) (s : PySample) (d : PyDispatch) :
    FoundNone env pid s d ∨ ∃ pi frame pairs e, FoundChain env pid s d pi frame pairs e := by
  by_cases hdone : s.state = pyChainDone
  · have hserved : s.served env pid d = ((s.entered pid d).markDone, ⟨d.record, s.counters⟩) := if_pos hdone
    refine .inl ⟨if_pos hdone, ?_, ?_, .inl ⟨?_, .inl hdone⟩⟩
    · rw [hserved]
      rfl
    · unfold dispatch
      rw [hserved]
      exact hdone
    · unfold dispatch
      rw [hserved]
  · have hcursor : s.cursor env pid = _ := if_neg hdone
    have hserved : s.served env pid d = _ := if_neg hdone
    cases hproc : env.enabledProc pid with
    | none =>
      rw [hproc] at hcursor
      rw [show (s.entered pid d).pid = pid from rfl, hproc] at hserved
      refine .inl ⟨hcursor, ?_, ?_, ?_⟩
      · rw [hserved]
        rfl
      · unfold dispatch
        rw [hserved]
        exact chainState_setState _ _
      · by_cases hfirst : s.state = pyChainUnstarted
        · refine .inr ⟨hfirst, .noProcInfo, by decide, ?_⟩
          unfold dispatch
          rw [hserved]
          exact if_pos hfirst
        · refine .inl ⟨?_, .inr hproc⟩
          unfold dispatch
          rw [hserved]
          exact if_neg hfirst
    | some pi =>
      rw [hproc] at hcursor
      rw [show (s.entered pid d).pid = pid from rfl, hproc] at hserved
      by_cases hfirst : s.state = pyChainUnstarted
      · have hcursor := hcursor.trans (if_pos hfirst)
        have hserved := hserved.trans (if_pos hfirst)
        cases hframe : pyCurrentFrame env pi with
        | error slot =>
          rw [hframe] at hcursor hserved
          refine .inl ⟨hcursor, ?_, ?_, .inr ⟨hfirst, slot, pyCurrentFrame_error hframe, ?_⟩⟩
          · rw [hserved]
            rfl
          · unfold dispatch
            rw [hserved]
            exact chainState_setState _ _
          · unfold dispatch
            rw [hserved]
        | ok frame =>
          rw [hframe] at hcursor hserved
          dsimp only at hserved
          obtain ⟨pairs, e, hrun, hleft⟩ := pySegment_spec env pi
            { ((s.entered pid d).setState pyChainDone).markDone with
              interpDone := ((s.entered pid d).setState pyChainDone).markDone.interpDone &&& ~~~pyDoneBit }
            ⟨d.record, s.counters⟩ frame
          rw [← hserved] at hleft
          refine .inr ⟨pi, frame, pairs, e, hcursor, hproc, hdone, hrun, ?_⟩
          rw [if_pos hfirst]
          exact ⟨hleft.record, hleft.active, hleft.done⟩
      · have hcursor := hcursor.trans (if_neg hfirst)
        have hserved := hserved.trans (if_neg hfirst)
        obtain ⟨pairs, e, hrun, hleft⟩ := pySegment_spec env pi (s.entered pid d)
          ⟨d.record, pyCountUndo s.counters .chainAbandoned⟩ (s.entered pid d).chainFrame
        rw [← hserved] at hleft
        refine .inr ⟨pi, _, pairs, e, hcursor, hproc, hdone, hrun, ?_⟩
        rw [if_neg hfirst]
        exact ⟨hleft.record, hleft.active, hleft.done⟩

/-! ## What is counted -/

def perSample : List PyCnt :=
  [.tssMiss, .noProcInfo, .tstateReadFail, .frameReadFail, .implausibleOwner, .chainTruncated, .pushRefused,
    .noneExecutable]

/-- Where the counters are, in terms of where they were when the sample began: nothing has failed as
long as the chain is followed, and nothing fails twice. -/
structure Accounts (env : PyEnv) (pid : UInt32) (c₀ : PyCounters) (s : PySample) : Prop where
  states : s.state = pyChainUnstarted ∨ s.Live ∨ s.state = pyChainDone
  proc : s.Live → ∃ pi, env.enabledProc pid = some pi
  fresh : s.state ≠ pyChainDone → ∀ slot ∈ perSample, s.counters slot = c₀ slot
  once : ∀ slot ∈ perSample, s.counters slot ≤ c₀ slot + 1
  abandoned : s.counters .chainAbandoned = c₀ .chainAbandoned + if s.Live then 1 else 0

theorem not_live_of_done (h : s.state = pyChainDone) : ¬s.Live := by
  unfold Live
  rw [h]
  decide

/-- A segment ends with one count of a kind at most, and none of them is that of an abandoned chain. -/
theorem counts_of_run {pi : PyProcInfo} {n : Nat} {frame : UInt64} {pairs : List InterpPair} {e : SegmentEnd}
    (h : SegmentRun env pi n frame pairs e) :
    e.counts.Nodup ∧ .chainAbandoned ∉ e.counts ∧ (e.cursor ≠ none → e.counts = []) := by
  induction h with
  | chainEnd => exact ⟨by decide, by decide, fun _ => rfl⟩
  | @broken _ frame why _ hwhy =>
    have hmem : why ∈ [PyCnt.frameReadFail, .implausibleOwner, .noneExecutable] := by
      cases hread : pyReadFrame env pi frame with
      | boundary prev => rw [hread] at hwhy; cases hwhy
      | code exec instr prev => rw [hread] at hwhy; cases hwhy
      | _ => rw [hread] at hwhy; cases hwhy; decide
    refine ⟨List.nodup_singleton _, ?_, fun h => absurd rfl h⟩
    intro habandoned
    rw [← List.mem_singleton.mp habandoned] at hmem
    exact absurd hmem (by decide)
  | boundary => exact ⟨List.nodup_nil, List.not_mem_nil, fun _ => rfl⟩
  | refused =>
    have hcounts : [PyCnt.pushRefused, .chainTruncated].Nodup ∧
        PyCnt.chainAbandoned ∉ [PyCnt.pushRefused, .chainTruncated] := by decide
    exact ⟨hcounts.1, hcounts.2, fun h => absurd rfl h⟩
  | push _ _ _ _ ih => exact ih

theorem Accounts.dispatch (h : Accounts env pid c₀ s) : Accounts env pid c₀ (s.dispatch env pid d) := by
  obtain hnone | ⟨pi, frame, pairs, e, hchain⟩ := dispatch_cases env pid s d
  · have hlive := not_live_of_done hnone.state
    refine ⟨.inr (.inr hnone.state), fun hl => absurd hl hlive, fun hdone => absurd hnone.state hdone, ?_, ?_⟩
    · intro slot hslot
      obtain ⟨hcounters, -⟩ | ⟨hfirst, slot', -, hcounters⟩ := hnone.counters
      · rw [hcounters]
        exact h.once slot hslot
      · rw [hcounters, ← h.fresh (by rw [hfirst]; decide) slot hslot]
        unfold pyCount
        by_cases heq : slot = slot'
        · rw [heq, update_self]
        · rw [update_of_ne heq]
          exact Nat.le_succ _
    · rw [if_neg hlive]
      obtain ⟨hcounters, hwhy⟩ | ⟨hfirst, slot', hslot', hcounters⟩ := hnone.counters
      · have hnot : ¬s.Live := by
          intro hl
          obtain hdone | hproc := hwhy
          · exact not_live_of_done hdone hl
          · obtain ⟨pi, hpi⟩ := h.proc hl
            rw [hproc] at hpi
            cases hpi
        rw [hcounters, h.abandoned, if_neg hnot]
      · have hne : PyCnt.chainAbandoned ≠ slot' := fun heq => absurd (heq ▸ hslot') (by decide)
        have hnot : ¬s.Live := by
          unfold Live
          rw [hfirst]
          decide
        rw [hcounters, pyCount, update_of_ne hne, h.abandoned, if_neg hnot]
  · obtain ⟨hnodup, habandoned, hempty⟩ := counts_of_run hchain.run
    -- the count of an abandoned chain is withdrawn before the segment
    have hbase : ∀ slot ∈ perSample, (if s.state = pyChainUnstarted then s.counters
        else pyCountUndo s.counters .chainAbandoned) slot = c₀ slot := by
      intro slot hslot
      rw [← h.fresh hchain.notDone slot hslot]
      split
      · rfl
      · unfold pyCountUndo
        split
        · exact update_of_ne (fun heq => absurd (heq ▸ hslot) (by decide)) _ _
        · rfl
    have hbaseAbandoned : (if s.state = pyChainUnstarted then s.counters
        else pyCountUndo s.counters .chainAbandoned) .chainAbandoned = c₀ .chainAbandoned := by
      split
      · next hfirst =>
        rw [h.abandoned, if_neg (by unfold Live; rw [hfirst]; decide)]
        rfl
      · next hfirst =>
        have hlive : s.Live := (h.states.resolve_left hfirst).resolve_right hchain.notDone
        have hcount : s.counters .chainAbandoned = c₀ .chainAbandoned + 1 := by rw [h.abandoned, if_pos hlive]
        unfold pyCountUndo
        rw [if_pos (by rw [hcount]; exact Nat.succ_pos _), update_self, hcount]
        rfl
    have hleft := hchain.left
    generalize (if s.state = pyChainUnstarted then s.counters else pyCountUndo s.counters .chainAbandoned) = base
      at hbase hbaseAbandoned hleft
    have hframes : ∀ slot, slot ≠ .framesPushed →
        (List.replicate pairs.length PyCnt.framesPushed ++ e.counts).count slot = e.counts.count slot := by
      intro slot hslot
      rw [List.count_append, List.count_replicate, if_neg (by simpa using Ne.symm hslot), Nat.zero_add]
    have hpushed : ∀ slot ∈ perSample, slot ≠ .framesPushed := fun slot hslot heq => absurd (heq ▸ hslot) (by decide)
    cases hcursor : e.cursor with
    | some frame' =>
      obtain ⟨hstate, -, hcounters⟩ := hleft.active hcursor
      dsimp only at hcounters
      have hlive : (s.dispatch env pid d).Live := hstate
      have hnone : e.counts = [] := hempty (by rw [hcursor]; exact Option.some_ne_none _)
      have hslots : ∀ slot ∈ perSample, (s.dispatch env pid d).counters slot = c₀ slot := by
        intro slot hslot
        show (s.served env pid d).2.counters slot = _
        rw [hcounters, pyCount, update_of_ne (fun heq => absurd (heq ▸ hslot) (by decide)), pyCounts_apply,
          hframes slot (hpushed slot hslot), hnone]
        exact hbase slot hslot
      refine ⟨.inr (.inl hlive), fun _ => ⟨pi, hchain.proc⟩, fun _ => hslots, ?_, ?_⟩
      · exact fun slot hslot => (hslots slot hslot).le.trans (Nat.le_succ _)
      · rw [if_pos hlive]
        show (s.served env pid d).2.counters _ = _
        rw [hcounters, pyCount, update_self, pyCounts_apply, hframes _ (by decide), hnone, hbaseAbandoned]
        rfl
    | none =>
      obtain ⟨hstate, hcounters⟩ := hleft.done hcursor
      dsimp only at hcounters
      have hstate : (s.dispatch env pid d).state = pyChainDone := hstate
      have hlive := not_live_of_done hstate
      refine ⟨.inr (.inr hstate), fun hl => absurd hl hlive, fun hdone => absurd hstate hdone, ?_, ?_⟩
      · intro slot hslot
        show (s.served env pid d).2.counters slot ≤ _
        rw [hcounters, pyCounts_apply, hframes slot (hpushed slot hslot), hbase slot hslot]
        exact Nat.add_le_add_left (List.nodup_iff_count_le_one.mp hnodup slot) _
      · rw [if_neg hlive]
        show (s.served env pid d).2.counters _ = _
        rw [hcounters, pyCounts_apply, hframes _ (by decide), List.count_eq_zero.mpr habandoned, hbaseAbandoned]

/-! ## The chain in segments -/

variable {prev : UInt64}

section Segments

variable {pi : PyProcInfo} {n : Nat} {frame : UInt64} {pairs : List InterpPair} {e : SegmentEnd}

variable {ns : List Nat} {pushed : List (List InterpPair)} {c c' : Option (PyProcInfo × UInt64)}

end Segments

end PySample

end PerfAgent.Bpf
