import PerfAgent.Bpf.HandoffTransparency

/-!
# A handoff that is not made

The budget of round trips is used up, or the tail call does not go through.  The walk has stopped at the
frame by then, and it ends there: what is missing from the record is what the walk without
interpreters pushes past that frame.
-/

namespace PerfAgent.Bpf

namespace Walk

open WalkCtx (Plain)

def Unserved (env : WalkEnv) : Walk → WalkAction → Prop
  | .looped st w, .dispatch tailCall =>
    (env.interpEnabled = true ∧ ¬Idle w) ∧ (interpTailCallBudget ≤ st.tailCalls ∨ tailCall = false)
  | _, _ => False

/-- The record has the native frames of the walk without interpreters, as far as there is room. -/
def FinishesNatively (env : WalkEnv) (s₀ : Walk) (maps : WalkMaps) (n : Nat) : Prop :=
  ∃ as₀ st₀ maps₀ n₀, Run (fun s a s' => s.step env.native a = some s') s₀ as₀ (.ended st₀ maps₀ (some n₀)) ∧
    (maps.record.natives n = maps₀.record.natives n₀ ∨
      n = maxFrames ∧ maps.record.natives n <+: maps₀.record.natives n₀)

/-- The record has the first native frames of the walk without interpreters, up to one at `pc`. -/
def EndsAt (env : WalkEnv) (s₀ : Walk) (pc : UInt64) (maps : WalkMaps) (n : Nat) : Prop :=
  (∃ before, maps.record.natives n = before ++ [pc]) ∧
    ∃ as₀ st₀ maps₀ n₀, Run (fun s a s' => s.step env.native a = some s') s₀ as₀ (.ended st₀ maps₀ (some n₀)) ∧
      maps.record.natives n <+: maps₀.record.natives n₀

/-! ## The walk without interpreters goes on -/

section Native

variable {env : WalkEnv} {s₀ : Walk} {w : WalkCtx}

/-- In the middle of a frame, the walk without interpreters has an end with all native frames that
there are, and maybe more. -/
theorem Mid.looped (h : Mid env s₀ w) : ∃ st₀ w₁, Reaches env s₀ (.looped st₀ w₁) ∧ w.natives <+: w₁.natives := by
  obtain ⟨st₀, w₀, i, h⟩ := h
  have hturn := h.reaches.turn (h.turns.trans_lt h.room)
  have hplain : Plain (w₀.framePushNative w₀.pc).1 (w₀.unwindFrame env.native true).1 := by
    rw [unwindFrame_lead env.native h.room]
    exact WalkCtx.plain_unwindPushed_native true
  have hprefix := hplain.natives_prefix
  rw [← h.mirrors.natives] at hprefix
  cases hstop : (w₀.unwindFrame env.native true).2 with
  | true =>
    rw [hstop, if_pos rfl] at hturn
    exact ⟨_, _, hturn, hprefix⟩
  | false =>
    rw [hstop, if_neg Bool.false_ne_true] at hturn
    obtain ⟨w₁, hlooped, hrest⟩ := hturn.looped maxFrames (Nat.le_add_left _ _)
    exact ⟨_, w₁, hlooped, hprefix.trans hrest⟩

def InLoop : Walk → Prop
  | .looping .. | .looped .. | .ended .. => True
  | .inModule .. | .resumeStep .. | .resumeWalk .. => False

theorem InLoop.step {s s' : Walk} {a : WalkAction} (h : s.InLoop) (hstep : s.step env.native a = some s') :
    s'.InLoop := by
  cases s with
  | looping st w idx =>
    cases a with
    | turn =>
      unfold Walk.step at hstep
      dsimp only at hstep
      split at hstep
      · cases hstep
        split <;> trivial
      · cases hstep
        trivial
    | _ => cases hstep
  | looped st w =>
    cases a with
    | dispatch tailCall =>
      cases hstep
      rw [dispatch_native]
      trivial
    | _ => cases hstep
  | inModule => exact h.elim
  | resumeStep => exact h.elim
  | resumeWalk => exact h.elim
  | ended => cases hstep

theorem InLoop.step_eq {s s₁ s₂ : Walk} {a b : WalkAction} (h : s.InLoop) (h₁ : s.step env.native a = some s₁)
    (h₂ : s.step env.native b = some s₂) : s₁ = s₂ := by
  cases s with
  | looping st w idx =>
    cases a <;> cases b <;> first | exact Option.some.inj (h₁.symm.trans h₂) | cases h₁ | cases h₂
  | looped st w =>
    cases a with
    | dispatch tailCall =>
      cases b with
      | dispatch tailCall' =>
        cases h₁
        cases h₂
        rw [dispatch_native, dispatch_native]
      | _ => cases h₂
    | _ => cases h₁
  | inModule => exact h.elim
  | resumeStep => exact h.elim
  | resumeWalk => exact h.elim
  | ended => cases h₁

theorem not_step_ended (st : WalkPersist) (maps : WalkMaps) (n : Option Nat) (a : WalkAction) (s : Walk) :
    ¬(Walk.ended st maps n).step env.native a = some s := by
  intro h
  cases h

theorem native_unique (maps : WalkMaps) (pid tid : UInt32) (pc fp sp : UInt64) {as as' : List WalkAction}
    {st st' : WalkPersist} {maps₁ maps₂ : WalkMaps} {n n' : Option Nat}
    (h : Run (fun s a s' => s.step env.native a = some s') (begin maps pid tid pc fp sp) as (.ended st maps₁ n))
    (h' : Run (fun s a s' => s.step env.native a = some s') (begin maps pid tid pc fp sp) as' (.ended st' maps₂ n')) :
    maps₁ = maps₂ ∧ n = n' := by
  have hloop : ∀ as s, Run (fun s a s' => s.step env.native a = some s') (begin maps pid tid pc fp sp) as s → s.InLoop :=
    fun as s hrun => hrun.invariant (I := fun _ s => s.InLoop) trivial fun _ _ _ _ _ hs hstep => hs.step hstep
  have hsame := Run.unique_end (fun as s a b s₁ s₂ hrun h₁ h₂ => (hloop as s hrun).step_eq h₁ h₂)
    h (not_step_ended _ _ _) h' (not_step_ended _ _ _)
  cases hsame
  exact ⟨rfl, rfl⟩

end Native

/-! ## Up to the frame -/

section Unserved

variable {env : WalkEnv} {s s' : Walk} {a : WalkAction}

theorem tailCalled_of_step (hstep : s.step env a = some s') (h : ∀ st maps n, s' ≠ .ended st maps n) :
    a.tailCalled = true := by
  cases ha : a.tailCalled with
  | true => rfl
  | false =>
    exfalso
    cases s with
    | looping => cases a <;> first | cases hstep | cases ha
    | looped st w =>
      cases a with
      | dispatch tailCall =>
        obtain rfl : tailCall = false := ha
        cases hstep
        unfold dispatch at h
        split at h
        · split at h
          · exact h _ _ _ rfl
          · rw [if_neg Bool.false_ne_true] at h
            exact h _ _ _ rfl
        · exact h _ _ _ rfl
      | _ => cases hstep
    | inModule =>
      cases a with
      | module run tailCall =>
        obtain rfl : tailCall = false := ha
        cases hstep
        exact h _ _ _ rfl
      | _ => cases hstep
    | resumeStep =>
      cases a with
      | resumeStep tailCall =>
        obtain rfl : tailCall = false := ha
        cases hstep
        exact h _ _ _ rfl
      | _ => cases hstep
    | resumeWalk =>
      cases a with
      | resumeWalk => cases ha
      | _ => cases hstep
    | ended => cases hstep

theorem tailCalled_of_run {s₀ : Walk} {as : List WalkAction}
    (hrun : Run (fun s a s' => s.step env a = some s') s₀ as s) (h : ∀ st maps n, s ≠ .ended st maps n) :
    ∀ a ∈ as, a.tailCalled = true := by
  induction hrun with
  | nil => simp
  | @snoc as t u a hrun ha ih =>
    have hnot : ∀ st maps n, t ≠ .ended st maps n := by
      rintro st maps n rfl
      cases ha
    intro b hb
    rcases List.mem_append.mp hb with hb | hb
    · exact ih hnot b hb
    · obtain rfl := List.mem_singleton.mp hb
      exact tailCalled_of_step ha h

theorem natives_of_laid {pid : UInt32} {runs : List ModuleRun} {w : WalkCtx} {before : List Segment}
    (h : Layout env pid runs w.slots (before ++ [⟨w.pc, none⟩])) : ∃ natives, w.natives = natives ++ [w.pc] := by
  have hslots : w.slots = before.flatMap Segment.slots ++ [(frameTagNative, w.pc)] := by
    rw [h.slots, List.flatMap_append, List.flatMap_singleton]
    rfl
  refine ⟨(before.flatMap Segment.slots).filterMap fun p => if p.1 = frameTagNative then some p.2 else none, ?_⟩
  show w.slots.filterMap _ = _
  rw [hslots, List.filterMap_append]
  rfl

def unservedCount (maps : WalkMaps) : Nat := maps.counted.count .budget + maps.counted.count .tailcallFailed

theorem dispatch_unserved {st : WalkPersist} {w : WalkCtx} {tailCall : Bool}
    (h : Unserved env (.looped st w) (.dispatch tailCall)) :
    ∃ st' maps', dispatch env st w tailCall = .ended st' maps' (some (min w.nPcs maxFrames)) ∧
      maps'.record = w.maps.record ∧ unservedCount maps' = unservedCount w.maps + 1 := by
  obtain ⟨hclaimed, hwhy⟩ := h
  have hpending : env.interpEnabled = true ∧ w.pendingUnwinder ≠ unwinderNative := hclaimed
  unfold dispatch
  rw [if_pos hpending]
  split
  · refine ⟨_, _, rfl, rfl, ?_⟩
    unfold unservedCount WalkMaps.count
    simp only [List.count_append, List.count_singleton]
    exact Nat.add_right_comm _ _ _
  · next hbudget =>
    obtain rfl := hwhy.resolve_left hbudget
    rw [if_neg Bool.false_ne_true]
    refine ⟨_, _, rfl, rfl, ?_⟩
    unfold unservedCount WalkMaps.count
    simp only [List.count_append, List.count_singleton]
    rfl

end Unserved

/-- A walk with a claimed frame whose handoff is not made ends at that frame, which is counted: its
native frames are the first ones of the same walk without interpreters, up to the claimed frame. -/
theorem unserved_endsAt (env : WalkEnv) (maps : WalkMaps) (pid tid : UInt32) (pc fp sp : UInt64)
    {as : List WalkAction} {s s' : Walk} {a : WalkAction}
    (hrun : Run (fun s a s' => s.step env a = some s') (begin maps pid tid pc fp sp) as s)
    (hunserved : Unserved env s a) (hstep : s.step env a = some s') :
    ∃ st' maps' n, s' = .ended st' maps' (some n) ∧ WalkCtx.ClaimedAt env pid s.ctx.pc ∧
      EndsAt env (begin maps pid tid pc fp sp) s.ctx.pc maps' n ∧
      unservedCount maps' = unservedCount s.ctx.maps + 1 := by
  cases s with
  | looped st w =>
    cases a with
    | dispatch tailCall =>
      have htail := tailCalled_of_run hrun nofun
      obtain ⟨htransparent, segments, hlaid⟩ := transparent_run env maps pid tid pc fp sp hrun htail
      obtain ⟨hidle, -⟩ | ⟨-, -, hmid⟩ := htransparent
      · exact absurd hidle hunserved.1.2
      obtain ⟨hclaimed, before, rfl⟩ := hlaid.awaits hunserved.1.2
      obtain ⟨st', maps', hended, hrecord, hcount⟩ := dispatch_unserved hunserved
      have hnatives : maps'.record.natives (min w.nPcs maxFrames) = w.natives := by
        rw [SampleRecord.natives_min, hrecord]
        rfl
      obtain ⟨st₀, w₁, hlooped, hprefix⟩ := hmid.looped
      obtain ⟨as₀, hrun₀⟩ := hlooped.finish
      refine ⟨st', maps', _, (Option.some.inj hstep).symm.trans hended, ?_, ⟨?_, as₀, _, _, _, hrun₀, ?_⟩, hcount⟩
      · have hprocess : w.pid = pid := hlaid.process
        exact hprocess ▸ hclaimed
      · rw [hnatives]
        exact natives_of_laid hlaid.layout
      · rw [hnatives, SampleRecord.natives_min]
        exact hprefix
    | _ => exact hunserved.elim
  | _ => exact hunserved.elim

/-- A frame of an eval loop that is called from `0x5000`, where the chain of frame pointers ends. -/
def evalLoopOnce : WalkEnv where
  memory := fun addr => if addr = 0x100 then some 0 else if addr = 0x108 then some 0x5000 else none
  tables :=
    { cfiRules := ∅
      cfiLengths := ∅
      pidMappings := (∅ : AssocMap UInt32 (List Unwind.PIDMapping)).put 7
        [{ vmaStart := 0x4000, vmaEnd := 0x4800, loadBias := 0x4000, tableID := 9 }]
      pidMappingLengths := (∅ : AssocMap UInt32 UInt32).put 7 1 }
  handoffRanges := (∅ : AssocMap UInt64 HandoffRange).put 9 ⟨Vector.ofFn fun i => if i.val = 0 then (0x10, 0x20) else (0, 0), 1⟩
  interpEnabled := true

def clearMaps : WalkMaps where
  record := { walkerFlags := 0, pcs := Vector.replicate _ 0, tags := Vector.replicate _ 0 }

def emittedNatives : Walk → Option (Nat × List UInt64)
  | .ended _ maps (some n) => some (n, maps.record.natives n)
  | _ => none

theorem unserved_evalLoopOnce :
    ∃ s, Run (fun s a s' => s.step evalLoopOnce a = some s') (begin clearMaps 7 7 0x4010 0x100 0xf0) [.turn] s ∧
      (∃ st w, s = .looped st w ∧ ¬Idle w) ∧ s.ctx.pc = 0x4010 ∧
      (s.step evalLoopOnce (.dispatch false)).bind emittedNatives = some (1, [0x4010]) := by
  obtain ⟨s, hrun, hs⟩ := @exists_run _ _ (fun s a => s.step evalLoopOnce a) (begin clearMaps 7 7 0x4010 0x100 0xf0)
    [.turn] (fun s => decide (s.ctx.pc = 0x4010) && decide (s.ctx.pendingUnwinder ≠ unwinderNative) &&
      decide ((s.step evalLoopOnce (.dispatch false)).bind emittedNatives = some (1, [0x4010]))) (by decide +kernel)
  rw [Bool.and_eq_true, Bool.and_eq_true, decide_eq_true_iff, decide_eq_true_iff, decide_eq_true_iff] at hs
  obtain ⟨⟨hpc, hpending⟩, hemitted⟩ := hs
  refine ⟨s, hrun, ?_, hpc, hemitted⟩
  cases s with
  | looped st w => exact ⟨st, w, rfl, hpending⟩
  | _ => cases hemitted

theorem unserved_endsAt_evalLoopOnce : ∃ (s : Walk) (st' : WalkPersist) (maps' : WalkMaps) (n : Nat),
      s.step evalLoopOnce (.dispatch false) = some (.ended st' maps' (some n)) ∧
        EndsAt evalLoopOnce (begin clearMaps 7 7 0x4010 0x100 0xf0) 0x4010 maps' n := by
  obtain ⟨s, hrun, ⟨st, w, rfl, hpending⟩, hpc, -⟩ := unserved_evalLoopOnce
  obtain ⟨st', maps', n, hended, -, hends, -⟩ := unserved_endsAt evalLoopOnce clearMaps 7 7 0x4010 0x100 0xf0 hrun
    (a := .dispatch false) ⟨⟨rfl, hpending⟩, .inr rfl⟩ rfl
  rw [hpc] at hends
  exact ⟨.looped st w, st', maps', n, congrArg some hended, hends⟩

/-- Without the handoff the record has one native frame, and two without interpreters. -/
theorem not_finishesNatively :
    ¬∀ (env : WalkEnv) (maps : WalkMaps) (pid tid : UInt32) (pc fp sp : UInt64) (as : List WalkAction) (s : Walk)
      (a : WalkAction) (st' : WalkPersist) (maps' : WalkMaps) (n : Nat),
      Run (fun s a s' => s.step env a = some s') (begin maps pid tid pc fp sp) as s → Unserved env s a →
        s.step env a = some (.ended st' maps' (some n)) →
          FinishesNatively env (begin maps pid tid pc fp sp) maps' n := by
  intro h
  obtain ⟨s, hrun, ⟨st, w, rfl, hpending⟩, hpc, hemitted⟩ := unserved_evalLoopOnce
  obtain ⟨s', hstep, hs'⟩ := Option.bind_eq_some_iff.mp hemitted
  cases s' with
  | ended st' maps' emitted =>
    cases emitted with
    | none => cases hs'
    | some n =>
      obtain ⟨rfl, hnatives⟩ : n = 1 ∧ maps'.record.natives n = [0x4010] := by simpa [emittedNatives] using hs'
      obtain ⟨as₀, st₀, maps₀, n₀, hrun₀, hsame⟩ := h evalLoopOnce clearMaps 7 7 0x4010 0x100 0xf0 _ _
        (.dispatch false) st' maps' 1 hrun ⟨⟨rfl, hpending⟩, .inr rfl⟩ hstep
      obtain ⟨s₁, hrun₁, hs₁⟩ := @exists_run _ _ (fun s a => s.step evalLoopOnce.native a)
        (begin clearMaps 7 7 0x4010 0x100 0xf0) [.turn, .turn, .dispatch true]
        (fun s => decide (emittedNatives s = some (2, [0x4010, 0x5000]))) (by decide +kernel)
      have hs₁ := of_decide_eq_true hs₁
      cases s₁ with
      | ended st₁ maps₁ emitted₁ =>
        obtain ⟨rfl, rfl⟩ := native_unique clearMaps 7 7 0x4010 0x100 0xf0 hrun₀ hrun₁
        obtain ⟨rfl, hnatives₁⟩ : n₀ = 2 ∧ maps₀.record.natives n₀ = [0x4010, 0x5000] := by
          simpa [emittedNatives] using hs₁
        rw [hnatives, hnatives₁] at hsame
        exact absurd hsame (by decide)
      | _ => cases hs₁
  | _ => cases hs'

end Walk

end PerfAgent.Bpf
