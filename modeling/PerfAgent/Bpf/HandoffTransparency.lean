import PerfAgent.Bpf.Handoff

/-!
# Handing off does not change the native walk

The walk is followed by the same walk without interpreters, frame by frame.  Where a frame is
claimed, the other walk stands in the middle of that frame: it has pushed it and has still to unwind
past it, which is what the resumed walk does first.  Where there is no room left, the other walk may
go on; it ends all the same, and has the native frames it had.
-/

namespace PerfAgent.Bpf

namespace Walk

open WalkCtx (Mirrors Behind Follows Plain Claims ClaimedAt)

/-! ## The walk without interpreters -/

variable {w' : WalkCtx}

section Native

variable {env : WalkEnv} {s₀ : Walk} {w w₀ : WalkCtx} {st₀ : WalkPersist} {i : Nat}

def Reaches (env : WalkEnv) (s₀ s : Walk) : Prop :=
  ∃ as, Run (fun s a s' => s.step env.native a = some s') s₀ as s

theorem Reaches.step {s s' : Walk} {a : WalkAction} (h : Reaches env s₀ s)
    (hstep : s.step env.native a = some s') : Reaches env s₀ s' :=
  h.imp' (· ++ [a]) fun _ hrun => .snoc hrun hstep

theorem unwindFrame_lead (env : WalkEnv) (h : w.nPcs < maxFrames) :
    w.unwindFrame env true = (w.framePushNative w.pc).1.unwindPushed env true := by
  unfold WalkCtx.unwindFrame
  rw [if_pos rfl]
  exact if_neg (Bool.eq_false_iff.mp (WalkCtx.framePushNative_of_lt h w.pc).2.2)

theorem unwindFrame_full (env : WalkEnv) (h : maxFrames ≤ w.nPcs) :
    w.unwindFrame env true = (w.flag walkerFlagFramePushRefused, true) := by
  unfold WalkCtx.unwindFrame
  rw [if_pos rfl, WalkCtx.framePushNative_of_le h]
  exact if_pos rfl

theorem Reaches.turn (h : Reaches env s₀ (.looping st₀ w₀ i)) (hi : i < maxFrames) :
    Reaches env s₀ (if (w₀.unwindFrame env.native true).2 then .looped st₀ (w₀.unwindFrame env.native true).1
      else .looping st₀ (w₀.unwindFrame env.native true).1 (i + 1)) :=
  h.step (a := .turn) (if_pos hi)

theorem natives_prefix_unwindFrame (env : WalkEnv) (w : WalkCtx) :
    w.natives <+: (w.unwindFrame env.native true).1.natives := by
  by_cases hroom : w.nPcs < maxFrames
  · rw [unwindFrame_lead env.native hroom]
    have hplain : Plain w ((w.framePushNative w.pc).1.unwindPushed env.native true).1 :=
      (WalkCtx.plain_framePushNative w.pc).trans (WalkCtx.plain_unwindPushed_native true)
    exact hplain.natives_prefix
  · rw [unwindFrame_full env.native (Nat.not_lt.mp hroom)]
    exact List.prefix_refl _

theorem Reaches.looped (turns : Nat) (h : Reaches env s₀ (.looping st₀ w₀ i)) (hturns : maxFrames ≤ i + turns) :
    ∃ w₁, Reaches env s₀ (.looped st₀ w₁) ∧ w₀.natives <+: w₁.natives := by
  induction turns generalizing w₀ i with
  | zero => exact ⟨w₀, h.step (a := .turn) (if_neg (Nat.not_lt.mpr hturns)), List.prefix_refl _⟩
  | succ turns ih =>
    by_cases hi : i < maxFrames
    · have hturn := h.turn hi
      have hprefix := natives_prefix_unwindFrame env w₀
      cases hstop : (w₀.unwindFrame env.native true).2 with
      | true =>
        rw [hstop, if_pos rfl] at hturn
        exact ⟨_, hturn, hprefix⟩
      | false =>
        rw [hstop, if_neg Bool.false_ne_true] at hturn
        obtain ⟨w₁, hlooped, hprefix'⟩ := ih hturn (by omega)
        exact ⟨w₁, hlooped, hprefix.trans hprefix'⟩
    · exact ⟨w₀, h.step (a := .turn) (if_neg hi), List.prefix_refl _⟩

structure AtFrame (env : WalkEnv) (s₀ : Walk) (w : WalkCtx) (st₀ : WalkPersist) (w₀ : WalkCtx) (i : Nat) :
    Prop where
  reaches : Reaches env s₀ (.looping st₀ w₀ i)
  turns : i ≤ w₀.nPcs
  mirrors : Mirrors w w₀

/-- The other walk has pushed the frame and has still to unwind past it. -/
structure MidFrame (env : WalkEnv) (s₀ : Walk) (w : WalkCtx) (st₀ : WalkPersist) (w₀ : WalkCtx) (i : Nat) :
    Prop where
  reaches : Reaches env s₀ (.looping st₀ w₀ i)
  turns : i ≤ w₀.nPcs
  room : w₀.nPcs < maxFrames
  mirrors : Mirrors w (w₀.framePushNative w₀.pc).1

def At (env : WalkEnv) (s₀ : Walk) (w : WalkCtx) : Prop := ∃ st₀ w₀ i, AtFrame env s₀ w st₀ w₀ i

def Mid (env : WalkEnv) (s₀ : Walk) (w : WalkCtx) : Prop := ∃ st₀ w₀ i, MidFrame env s₀ w st₀ w₀ i

/-- The other walk is over, at the same frame or, if there is no room here, beyond it. -/
def Over (env : WalkEnv) (s₀ : Walk) (w : WalkCtx) : Prop :=
  ∃ st₀ w₀, Reaches env s₀ (.looped st₀ w₀) ∧ (Mirrors w w₀ ∨ Behind w w₀)

theorem At.of_mirrors (h : At env s₀ w) (hw : ∀ {w₀}, Mirrors w w₀ → Mirrors w' w₀) : At env s₀ w' := by
  obtain ⟨st₀, w₀, i, h⟩ := h
  exact ⟨st₀, w₀, i, h.reaches, h.turns, hw h.mirrors⟩

theorem Mid.of_mirrors (h : Mid env s₀ w) (hw : ∀ {w₀}, Mirrors w w₀ → Mirrors w' w₀) : Mid env s₀ w' := by
  obtain ⟨st₀, w₀, i, h⟩ := h
  exact ⟨st₀, w₀, i, h.reaches, h.turns, h.room, hw h.mirrors⟩

theorem At.over (h : At env s₀ w) (hfull : maxFrames ≤ w.nPcs) : Over env s₀ w := by
  obtain ⟨st₀, w₀, i, h⟩ := h
  obtain ⟨w₁, hlooped, hprefix⟩ := h.reaches.looped maxFrames (Nat.le_add_left _ _)
  refine ⟨st₀, w₁, hlooped, .inr ⟨hfull, ?_⟩⟩
  rw [h.mirrors.natives]
  exact hprefix

theorem Mid.follows {r : WalkCtx × Bool} (h : Mid env s₀ w)
    (hr : ∀ {w₀}, Mirrors w w₀ → Follows r (w₀.unwindPushed env.native true)) :
    (r.2 = false → At env s₀ r.1) ∧ (r.2 = true → Over env s₀ r.1) := by
  obtain ⟨st₀, w₀, i, h⟩ := h
  have hfollows := hr h.mirrors
  have hturn := h.reaches.turn (h.turns.trans_lt h.room)
  rw [unwindFrame_lead env.native h.room, ← hfollows.stops] at hturn
  constructor
  · intro hgo
    rw [hgo, if_neg Bool.false_ne_true] at hturn
    refine ⟨st₀, _, i + 1, hturn, ?_, hfollows.goes hgo⟩
    calc i + 1 ≤ w₀.nPcs + 1 := Nat.succ_le_succ h.turns
      _ = (w₀.framePushNative w₀.pc).1.nPcs := (WalkCtx.framePushNative_of_lt h.room _).2.1.symm
      _ ≤ _ := (WalkCtx.plain_unwindPushed_native true).le
  · intro hstop
    rw [hstop, if_pos rfl] at hturn
    exact ⟨st₀, _, hturn, hfollows.ends hstop⟩

theorem At.push (h : At env s₀ w) (hroom : w.nPcs < maxFrames) : Mid env s₀ (w.framePushNative w.pc).1 := by
  obtain ⟨st₀, w₀, i, h⟩ := h
  have hroom₀ := h.mirrors.le.trans_lt hroom
  refine ⟨st₀, w₀, i, h.reaches, h.turns, hroom₀, ?_⟩
  rw [h.mirrors.pc]
  exact h.mirrors.framePushNative_of_lt hroom w₀.pc

end Native

/-! ## One step -/

section Steps

variable {env : WalkEnv} {s₀ s s' : Walk} {c₀ : Nat} {st : WalkPersist} {w : WalkCtx} {maps : WalkMaps}

/-- The frames claimed since the start have each cost a tail call, and the walk has not stopped. -/
structure Goes (c₀ tailCalls : Nat) (st : WalkPersist) (w : WalkCtx) : Prop where
  stopped : st.stopped = false
  claims : w.claims = c₀ + tailCalls

/-- The other walk is at the same frame, in the middle of it, or over, unless there were too many
tail calls to make. -/
def Transparent (env : WalkEnv) (s₀ : Walk) (c₀ : Nat) : Walk → Prop
  | .looping st w idx => Goes c₀ st.tailCalls st w ∧ Idle w ∧ idx ≤ w.nPcs ∧ At env s₀ w
  | .looped st w =>
    Idle w ∧ Over env s₀ w ∨ (env.interpEnabled = true ∧ ¬Idle w) ∧ Goes c₀ (st.tailCalls + 1) st w ∧ Mid env s₀ w
  | .inModule st maps =>
    Goes c₀ st.tailCalls st (walkLoad st maps) ∧ Mid env s₀ (walkLoad st maps)
  | .resumeStep st maps =>
    Goes c₀ st.tailCalls st (walkLoad st maps) ∧ Idle (walkLoad st maps) ∧ Mid env s₀ (walkLoad st maps)
  | .resumeWalk st maps =>
    st.stopped = true ∧ Over env s₀ (walkLoad st maps) ∨
      Goes c₀ st.tailCalls st (walkLoad st maps) ∧ Idle (walkLoad st maps) ∧ At env s₀ (walkLoad st maps)
  | .ended st maps emitted =>
    emitted = some (min st.nPcs maxFrames) ∧
      (Over env s₀ (walkLoad st maps) ∨ c₀ + interpTailCallBudget < (walkLoad st maps).claims)

theorem transparent_begin (env : WalkEnv) (maps : WalkMaps) (pid tid : UInt32) (pc fp sp : UInt64) :
    Transparent env (begin maps pid tid pc fp sp) (maps.counted.count .claimed) (begin maps pid tid pc fp sp) :=
  ⟨⟨rfl, rfl⟩, rfl, Nat.le_refl 0, _, _, _, ⟨[], .nil⟩, Nat.le_refl 0, ⟨rfl, rfl, rfl, rfl, rfl, rfl, Nat.le_refl 0⟩⟩

theorem transparent_turn {idx : Nat} (h : Transparent env s₀ c₀ (.looping st w idx))
    (hstep : (looping st w idx).step env .turn = some s') : Transparent env s₀ c₀ s' := by
  obtain ⟨hgoes, hidle, hidx, hat⟩ := h
  unfold Walk.step at hstep
  dsimp only at hstep
  split at hstep
  · cases hstep
    by_cases hroom : w.nPcs < maxFrames
    · rw [unwindFrame_lead env hroom]
      have hmid := hat.push hroom
      have hpush : Plain w (w.framePushNative w.pc).1 := WalkCtx.plain_framePushNative w.pc
      obtain hclaims | ⟨hplain, hfollows⟩ := WalkCtx.unwindPushed_lead env (w.framePushNative w.pc).1
      · -- the frame is claimed, and the other walk is in the middle of it
        rw [if_pos hclaims.stops]
        refine .inr ⟨⟨hclaims.enabled, hclaims.pending⟩, ⟨hgoes.stopped, ?_⟩, hmid.of_mirrors hclaims.mirrors⟩
        rw [hclaims.claims, hpush.claims, hgoes.claims, Nat.add_assoc]
      · have hall := hpush.trans hplain
        obtain ⟨hgo, hstop⟩ := hmid.follows hfollows
        split
        · next hstops => exact .inl ⟨hall.pending.trans hidle, hstop hstops⟩
        · next hgo' =>
          refine ⟨⟨hgoes.stopped, hall.claims.trans hgoes.claims⟩, hall.pending.trans hidle, ?_,
            hgo (Bool.eq_false_iff.mpr hgo')⟩
          calc idx + 1 ≤ w.nPcs + 1 := Nat.succ_le_succ hidx
            _ = (w.framePushNative w.pc).1.nPcs := (WalkCtx.framePushNative_of_lt hroom _).2.1.symm
            _ ≤ _ := hplain.le
    · have hfull := Nat.not_lt.mp hroom
      rw [unwindFrame_full env hfull]
      have hflag : At env s₀ (w.flag walkerFlagFramePushRefused) :=
        hat.of_mirrors fun hm => ⟨hm.pc, hm.fp, hm.sp, hm.pid, hm.natives, hm.flags.refused, hm.le⟩
      exact .inl ⟨hidle, hflag.over hfull⟩
  · next hturns =>
    cases hstep
    exact .inl ⟨hidle, hat.over ((Nat.not_lt.mp hturns).trans hidx)⟩

theorem transparent_dispatch (h : Transparent env s₀ c₀ (.looped st w)) :
    Transparent env s₀ c₀ (dispatch env st w true) := by
  unfold dispatch
  split
  · next hpending =>
    obtain ⟨hidle, -⟩ | ⟨-, hgoes, hmid⟩ := h
    · exact absurd hidle hpending.2
    · have hcount : ∀ stat : InterpStat, stat ≠ .claimed →
          (w.maps.counted ++ [stat]).count .claimed = w.claims := by
        intro stat hstat
        rw [List.count_append, List.count_singleton, if_neg (by simpa using hstat)]
        rfl
      split
      · next hbudget =>
        refine ⟨rfl, .inr ?_⟩
        show _ < (w.maps.counted ++ [InterpStat.budget]).count _
        rw [hcount _ (by decide), hgoes.claims]
        exact Nat.add_lt_add_left (Nat.lt_succ_of_le hbudget) c₀
      · rw [if_pos rfl]
        refine ⟨⟨hgoes.stopped, ?_⟩, hmid.of_mirrors ?_⟩
        · show (w.maps.counted ++ [InterpStat.dispatched]).count _ = _
          rw [hcount _ (by decide)]
          exact hgoes.claims
        · exact fun hm => ⟨hm.pc, hm.fp, hm.sp, hm.pid, hm.natives, hm.flags, hm.le⟩
  · next hpending =>
    obtain ⟨-, hover⟩ | ⟨⟨henabled, hclaimed⟩, -⟩ := h
    · exact ⟨rfl, .inl hover⟩
    · exact absurd ⟨henabled, hclaimed⟩ hpending

theorem transparent_module (h : Transparent env s₀ c₀ (.inModule st maps)) (run : ModuleRun) :
    Transparent env s₀ c₀ (.resumeStep (runModule st maps run).1 (runModule st maps run).2) := by
  obtain ⟨hgoes, hmid⟩ := h
  have hle : st.nPcs ≤ (pushPairs (maps.record, st.nPcs) run.pairs).2 :=
    le_pushPairs (maps.record, st.nPcs) run.pairs
  refine ⟨⟨hgoes.stopped, hgoes.claims⟩, rfl, hmid.of_mirrors fun hm => ?_⟩
  refine ⟨hm.pc, hm.fp, hm.sp, hm.pid, ?_, sameFlags_pushPairs run.pairs hm.flags, hm.le.trans hle⟩
  exact Eq.trans (natives_pushPairs run.pairs) hm.natives

theorem transparent_resumeStep (h : Transparent env s₀ c₀ (.resumeStep st maps)) :
    Transparent env s₀ c₀ (.resumeWalk (runResumeStep env st maps).1 (runResumeStep env st maps).2) := by
  obtain ⟨hgoes, hidle, hmid⟩ := h
  -- the counter of resumed walks is no matter
  have hcount : Plain (walkLoad st maps) (walkLoad st (maps.count [.resumed])) := by
    refine WalkCtx.plain_of_slots rfl rfl ?_ rfl rfl
    show (maps.counted ++ [InterpStat.resumed]).count _ = _
    rw [List.count_append]
    rfl
  have hmid : Mid env s₀ (walkLoad st (maps.count [.resumed])) := hmid.of_mirrors fun hm => hm.count [.resumed]
  obtain ⟨hgo, hstop⟩ := hmid.follows fun hm => hm.unwindPushed_resumed
  have hplain := hcount.trans (WalkCtx.plain_unwindPushed_resumed env _)
  have heq : (walkLoad st (maps.count [.resumed])).unwindFrame env false =
      (walkLoad st (maps.count [.resumed])).unwindPushed env false := rfl
  unfold runResumeStep
  dsimp only
  rw [heq, hgoes.stopped, Bool.false_or]
  generalize (walkLoad st (maps.count [.resumed])).unwindPushed env false = r at hgo hstop hplain
  obtain ⟨w, stops⟩ := r
  cases stops with
  | true => exact .inl ⟨rfl, hstop rfl⟩
  | false => exact .inr ⟨⟨rfl, hplain.claims.trans hgoes.claims⟩, hplain.pending.trans hidle, hgo rfl⟩

theorem transparent_resumeWalk (h : Transparent env s₀ c₀ (.resumeWalk st maps)) :
    Transparent env s₀ c₀ (if st.stopped then finish st (walkLoad st maps) else .looping st (walkLoad st maps) 0) := by
  obtain ⟨hstopped, hover⟩ | ⟨hgoes, hidle, hat⟩ := h
  · rw [if_pos hstopped]
    exact ⟨rfl, .inl hover⟩
  · rw [if_neg (Bool.eq_false_iff.mp hgoes.stopped)]
    exact ⟨hgoes, hidle, Nat.zero_le _, hat⟩

theorem Transparent.step {a : WalkAction} (h : Transparent env s₀ c₀ s) (ha : a.tailCalled = true)
    (hstep : s.step env a = some s') : Transparent env s₀ c₀ s' := by
  cases s with
  | looping st w idx =>
    cases a with
    | turn => exact transparent_turn h hstep
    | _ => cases hstep
  | looped st w =>
    cases a with
    | dispatch tailCall =>
      cases hstep
      obtain rfl : tailCall = true := ha
      exact transparent_dispatch h
    | _ => cases hstep
  | inModule st maps =>
    cases a with
    | module run tailCall =>
      cases hstep
      obtain rfl : tailCall = true := ha
      exact transparent_module h run
    | _ => cases hstep
  | resumeStep st maps =>
    cases a with
    | resumeStep tailCall =>
      cases hstep
      obtain rfl : tailCall = true := ha
      exact transparent_resumeStep h
    | _ => cases hstep
  | resumeWalk st maps =>
    cases a with
    | resumeWalk =>
      cases hstep
      exact transparent_resumeWalk h
    | _ => cases hstep
  | ended => cases hstep

end Steps

/-! ## Where the pairs are -/

variable {segments : List Segment}

section Layouts

variable {env : WalkEnv} {s s' : Walk} {pid : UInt32} {runs : List ModuleRun} {st : WalkPersist} {w : WalkCtx}
  {maps : WalkMaps}

/-- The frame that was pushed last is claimed, and no pair has been added for it. -/
def Awaits : Walk → Prop
  | .looped _ w => ¬Idle w
  | .inModule _ _ => True
  | _ => False

/-- The record is made of segments, the last one of which is open while its claim is served. -/
structure Laid (env : WalkEnv) (pid : UInt32) (runs : List ModuleRun) (s : Walk) (segments : List Segment) :
    Prop where
  layout : Layout env pid runs s.ctx.slots segments
  process : s.ctx.pid = pid
  awaits : s.Awaits → WalkCtx.ClaimedAt env pid s.ctx.pc ∧ ∃ before, segments = before ++ [⟨s.ctx.pc, none⟩]

theorem Laid.plain (h : Laid env pid runs s segments) (hplain : Plain s.ctx s'.ctx) (hawaits : ¬s'.Awaits) :
    ∃ segments', Laid env pid runs s' segments' := by
  obtain ⟨pcs, hpcs⟩ := hplain.slots
  have hlayout := h.layout.append_natives pcs
  rw [← hpcs] at hlayout
  exact ⟨_, hlayout, hplain.pid.trans h.process, fun ha => absurd ha hawaits⟩

theorem laid_turn {idx : Nat} (h : Laid env pid runs (.looping st w idx) segments) (hidle : Idle w)
    (hstep : (looping st w idx).step env .turn = some s') : ∃ segments', Laid env pid runs s' segments' := by
  unfold Walk.step at hstep
  dsimp only at hstep
  split at hstep
  · cases hstep
    by_cases hroom : w.nPcs < maxFrames
    · rw [unwindFrame_lead env hroom]
      have hpush : Plain w (w.framePushNative w.pc).1 := WalkCtx.plain_framePushNative w.pc
      obtain hclaims | ⟨hplain, -⟩ := WalkCtx.unwindPushed_lead env (w.framePushNative w.pc).1
      · rw [if_pos hclaims.stops]
        have hlayout := h.layout.append_natives [w.pc]
        have hslots : (w.framePushNative w.pc).1.slots = w.slots ++ [(frameTagNative, w.pc)] :=
          SampleRecord.slots_recordPushNative_of_lt hroom w.pc
        have hclaimed : WalkCtx.ClaimedAt env pid w.pc := by
          rw [← show w.pid = pid from h.process]
          exact hclaims.claimedAt
        have hpc : ((w.framePushNative w.pc).1.unwindPushed env true).1.pc = w.pc := hclaims.pc
        refine ⟨segments ++ [⟨w.pc, none⟩], ?_, hclaims.pid.trans h.process, fun _ => ?_⟩
        · show Layout env pid runs ((w.framePushNative w.pc).1.unwindPushed env true).1.slots _
          rw [hclaims.slots, hslots]
          exact hlayout
        · show WalkCtx.ClaimedAt env pid ((w.framePushNative w.pc).1.unwindPushed env true).1.pc ∧
            ∃ before, segments ++ [⟨w.pc, none⟩] =
              before ++ [Segment.mk ((w.framePushNative w.pc).1.unwindPushed env true).1.pc none]
          rw [hpc]
          exact ⟨hclaimed, segments, rfl⟩
      · have hall := hpush.trans hplain
        split
        · exact h.plain hall fun ha => ha (hall.pending.trans hidle)
        · exact h.plain hall id
    · rw [unwindFrame_full env (Nat.not_lt.mp hroom)]
      exact h.plain (WalkCtx.plain_flag _) fun ha => ha hidle
  · cases hstep
    exact h.plain (.refl w) fun ha => ha hidle

theorem laid_dispatch (h : Laid env pid runs (.looped st w) segments) :
    ∃ segments', Laid env pid runs (dispatch env st w true) segments' := by
  unfold dispatch
  split
  · next hpending =>
    split
    · exact ⟨segments, h.layout, h.process, fun ha => ha.elim⟩
    · rw [if_pos rfl]
      exact ⟨segments, h.layout, h.process, fun _ => h.awaits hpending.2⟩
  · exact ⟨segments, h.layout, h.process, fun ha => ha.elim⟩

theorem laid_module (h : Laid env pid runs (.inModule st maps) segments) (run : ModuleRun) :
    ∃ segments', Laid env pid (runs ++ [run])
      (.resumeStep (runModule st maps run).1 (runModule st maps run).2) segments' := by
  obtain ⟨hclaimed, before, rfl⟩ := h.awaits trivial
  have hlayout := h.layout.append_pairs hclaimed run (List.take_prefix ((maxFrames - st.nPcs) / 2) run.pairs)
  refine ⟨before ++ [⟨st.pc, some (accepted st.nPcs run.pairs)⟩], ?_, h.process, fun ha => ha.elim⟩
  show Layout env pid _ ((pushPairs (maps.record, st.nPcs) run.pairs).1.slots
    (pushPairs (maps.record, st.nPcs) run.pairs).2) _
  rw [slots_pushPairs]
  exact hlayout

theorem laid_resumeStep (h : Laid env pid runs (.resumeStep st maps) segments) : ∃ segments', Laid env pid runs
      (.resumeWalk (runResumeStep env st maps).1 (runResumeStep env st maps).2) segments' := by
  have hplain := WalkCtx.plain_unwindPushed_resumed env (walkLoad st (maps.count [.resumed]))
  obtain ⟨pcs, hpcs⟩ := hplain.slots
  have hlayout : Layout env pid runs ((walkLoad st maps).slots ++ pcs.map fun pc => (frameTagNative, pc)) _ :=
    h.layout.append_natives pcs
  refine ⟨segments ++ pcs.map fun pc => ⟨pc, none⟩, ?_, hplain.pid.trans h.process, fun ha => ha.elim⟩
  show Layout env pid runs ((walkLoad st (maps.count [.resumed])).unwindPushed env false).1.slots _
  rw [hpcs]
  exact hlayout

theorem laid_resumeWalk (h : Laid env pid runs (.resumeWalk st maps) segments) :
    Laid env pid runs (if st.stopped then finish st (walkLoad st maps) else .looping st (walkLoad st maps) 0)
      segments := by
  cases st.stopped with
  | true => exact ⟨h.layout, h.process, fun ha => ha.elim⟩
  | false => exact ⟨h.layout, h.process, fun ha => ha.elim⟩

theorem Laid.step {a : WalkAction} {segments : List Segment} (h : Laid env pid runs s segments) (hs : s.Sound)
    (ha : a.tailCalled = true) (hstep : s.step env a = some s') :
    ∃ segments', Laid env pid (runs ++ moduleRuns [a]) s' segments' := by
  have hnone : ∀ {s : Walk}, (∃ segments', Laid env pid runs s segments') →
      ∃ segments', Laid env pid (runs ++ []) s segments' := fun h => by rwa [List.append_nil]
  cases s with
  | looping st w idx =>
    cases a with
    | turn => exact hnone (laid_turn h hs.2 hstep)
    | _ => cases hstep
  | looped st w =>
    cases a with
    | dispatch tailCall =>
      cases hstep
      obtain rfl : tailCall = true := ha
      exact hnone (laid_dispatch h)
    | _ => cases hstep
  | inModule st maps =>
    cases a with
    | module run tailCall =>
      cases hstep
      obtain rfl : tailCall = true := ha
      exact laid_module h run
    | _ => cases hstep
  | resumeStep st maps =>
    cases a with
    | resumeStep tailCall =>
      cases hstep
      obtain rfl : tailCall = true := ha
      exact hnone (laid_resumeStep h)
    | _ => cases hstep
  | resumeWalk st maps =>
    cases a with
    | resumeWalk =>
      cases hstep
      exact hnone ⟨segments, laid_resumeWalk h⟩
    | _ => cases hstep
  | ended => cases hstep

end Layouts

/-! ## Runs -/

theorem transparent_run (env : WalkEnv) (maps : WalkMaps) (pid tid : UInt32) (pc fp sp : UInt64)
    {as : List WalkAction} {s : Walk}
    (h : Run (fun s a s' => s.step env a = some s') (begin maps pid tid pc fp sp) as s)
    (htail : ∀ a ∈ as, a.tailCalled = true) :
    Transparent env (begin maps pid tid pc fp sp) (maps.counted.count .claimed) s ∧
      ∃ segments, Laid env pid (moduleRuns as) s segments := by
  refine Run.invariant (I := fun as s => (∀ a ∈ as, a.tailCalled = true) →
    Transparent env (begin maps pid tid pc fp sp) (maps.counted.count .claimed) s ∧
      ∃ segments, Laid env pid (moduleRuns as) s segments) ?_ ?_ h htail
  · intro _
    refine ⟨transparent_begin env maps pid tid pc fp sp, [], ⟨rfl, .nil, ?_⟩, rfl, fun ha => ha.elim⟩
    exact fun g hg => absurd hg List.not_mem_nil
  · intro as s a s' hrun ih hstep htail
    obtain ⟨htransparent, segments, hlaid⟩ := ih fun a ha => htail a (List.mem_append_left _ ha)
    have ha := htail a (List.mem_append_right _ (List.mem_singleton_self a))
    have hs := (sound_begin maps pid tid pc fp sp).run hrun
    refine ⟨htransparent.step ha hstep, ?_⟩
    rw [moduleRuns, List.filterMap_append]
    exact hlaid.step hs ha hstep

theorem dispatch_native {env : WalkEnv} (st : WalkPersist) (w : WalkCtx) (tailCall : Bool) :
    dispatch env.native st w tailCall = finish st w :=
  if_neg fun henabled => absurd henabled.1 Bool.false_ne_true

theorem Reaches.finish {env : WalkEnv} {s₀ : Walk} {st₀ : WalkPersist} {w₀ : WalkCtx}
    (h : Reaches env s₀ (.looped st₀ w₀)) : Reaches env s₀ (finish st₀ w₀) :=
  h.step (a := .dispatch true) (congrArg some (dispatch_native st₀ w₀ true))

theorem Over.ended {env : WalkEnv} {s₀ : Walk} {w : WalkCtx} (h : Over env s₀ w) : ∃ as₀ st₀ maps₀ n₀,
      Run (fun s a s' => s.step env.native a = some s') s₀ as₀ (.ended st₀ maps₀ (some n₀)) ∧
      (w.natives = maps₀.record.natives n₀ ∨ maxFrames ≤ w.nPcs ∧ w.natives <+: maps₀.record.natives n₀) ∧
      (w.nPcs < maxFrames → SampleRecord.SameFlags w.maps.record maps₀.record) := by
  obtain ⟨st₀, w₀, hlooped, hends⟩ := h
  obtain ⟨as₀, hrun⟩ := hlooped.finish
  have hnatives : w₀.maps.record.natives (min w₀.nPcs maxFrames) = w₀.natives := SampleRecord.natives_min _
  refine ⟨as₀, _, _, _, hrun, ?_, ?_⟩
  · rw [hnatives]
    obtain hm | hb := hends
    · exact .inl hm.natives
    · exact .inr ⟨hb.full, hb.natives⟩
  · intro hroom
    obtain hm | hb := hends
    · exact hm.flags
    · exact absurd hb.full (Nat.not_le.mpr hroom)

/-- A walk with any handoffs, each of them through its tail calls, leaves the native frames of the
same walk without interpreters, unless the record is full, and then it leaves the first of them.
If the record is not full the flags are the same too, but for the one of a refused push.  The pairs
of a module stand right behind the frame it was entered for. -/
theorem handoff_transparent (env : WalkEnv) (maps : WalkMaps) (pid tid : UInt32) (pc fp sp : UInt64)
    {as : List WalkAction} {st : WalkPersist} {maps' : WalkMaps} {n : Nat}
    (hrun : Run (fun s a s' => s.step env a = some s') (begin maps pid tid pc fp sp) as (.ended st maps' (some n)))
    (htail : ∀ a ∈ as, a.tailCalled = true)
    (hbudget : maps'.counted.count .claimed ≤ maps.counted.count .claimed + interpTailCallBudget) :
    ∃ as₀ st₀ maps₀ n₀, Run (fun s a s' => s.step env.native a = some s') (begin maps pid tid pc fp sp) as₀
        (.ended st₀ maps₀ (some n₀)) ∧
      (maps'.record.natives n = maps₀.record.natives n₀ ∨
        n = maxFrames ∧ maps'.record.natives n <+: maps₀.record.natives n₀) ∧
      (n ≠ maxFrames → SampleRecord.SameFlags maps'.record maps₀.record) ∧
      ∃ segments, Layout env pid (moduleRuns as) (maps'.record.slots n) segments := by
  obtain ⟨⟨hemitted, hover⟩, segments, hlaid⟩ := transparent_run env maps pid tid pc fp sp hrun htail
  obtain rfl := Option.some.inj hemitted
  have hover := hover.resolve_right (Nat.not_lt.mpr hbudget)
  obtain ⟨as₀, st₀, maps₀, n₀, hrun₀, hnatives, hflags⟩ := hover.ended
  have hmin : maps'.record.natives (min st.nPcs maxFrames) = (walkLoad st maps').natives :=
    SampleRecord.natives_min _
  refine ⟨as₀, st₀, maps₀, n₀, hrun₀, ?_, ?_, segments, ?_⟩
  · rw [hmin]
    exact hnatives.imp_right fun ⟨hfull, hprefix⟩ => ⟨Nat.min_eq_right hfull, hprefix⟩
  · intro hroom
    refine hflags (Nat.lt_of_not_le fun hfull => hroom (Nat.min_eq_right hfull))
  · rw [SampleRecord.slots_min]
    exact hlaid.layout

/-- `_start` at `0x5000`, of which the tables say that it has no caller. -/
def rootRow : Unwind.CFIEntry where
  pcStart := 0x1000
  pcEndDelta := 0x100
  cfaType := .sp
  fpType := .sameValue
  cfaOffset := 8
  fpOffset := 0
  raOffset := 0
  raType := .undefined

/-- Two frames of an eval loop, the second one called from `_start`. -/
def evalLoopTwice : WalkEnv where
  memory := fun addr =>
    if addr = 0x100 then some 0x200 else if addr = 0x108 then some 0x4018
    else if addr = 0x200 then some 0 else if addr = 0x208 then some 0x5000 else none
  tables :=
    { cfiRules := (∅ : AssocMap UInt64 (List Unwind.CFIEntry)).put 9 [rootRow]
      cfiLengths := (∅ : AssocMap UInt64 UInt32).put 9 1
      pidMappings := (∅ : AssocMap UInt32 (List Unwind.PIDMapping)).put 7
        [{ vmaStart := 0x4000, vmaEnd := 0x6000, loadBias := 0x4000, tableID := 9 }]
      pidMappingLengths := (∅ : AssocMap UInt32 UInt32).put 7 1 }
  handoffRanges := (∅ : AssocMap UInt64 HandoffRange).put 9 ⟨Vector.ofFn fun i => if i.val = 0 then (0x10, 0x20) else (0, 0), 1⟩
  interpEnabled := true

def staleMaps : WalkMaps where
  record := { walkerFlags := 0xffff, pcs := Vector.replicate _ 0, tags := Vector.replicate _ 1 }

theorem evalLoopTag_ne : (1 : UInt8) ≠ frameTagNative := by decide

def onePairOf (a : UInt64) : ModuleRun where
  pairs := [⟨1, evalLoopTag_ne, a, 0⟩]
  interpDone := 0
  interpScratch := Vector.replicate 4 0

def handedOffTwice : List WalkAction :=
  [.turn, .dispatch true, .module (onePairOf 0xc0de) true, .resumeStep true, .resumeWalk,
    .turn, .dispatch true, .module (onePairOf 0xc0ee) true, .resumeStep true, .resumeWalk, .turn, .dispatch true]

def emittedSlots : Walk → Option (Nat × List (UInt8 × UInt64) × List UInt64 × Nat)
  | .ended _ maps (some n) => some (n, maps.record.slots n, maps.record.natives n, maps.counted.count .claimed)
  | _ => none

theorem handoff_transparent_evalLoopTwice :
    ∃ as₀ st₀ maps₀ n₀, Run (fun s a s' => s.step evalLoopTwice.native a = some s')
        (begin staleMaps 7 7 0x4010 0x100 0xf0) as₀ (.ended st₀ maps₀ (some n₀)) ∧
      maps₀.record.natives n₀ = [0x4010, 0x4018, 0x5000] := by
  obtain ⟨s, hrun, hs⟩ := @exists_run _ _ (fun s a => s.step evalLoopTwice a)
    (begin staleMaps 7 7 0x4010 0x100 0xf0) handedOffTwice
    (fun s => decide (emittedSlots s = some
      (7, [(0, 0x4010), (1, 0xc0de), (1, 0), (0, 0x4018), (1, 0xc0ee), (1, 0), (0, 0x5000)],
        [0x4010, 0x4018, 0x5000], 2))) (by decide +kernel)
  have hs := of_decide_eq_true hs
  cases s with
  | ended st maps' emitted =>
    cases emitted with
    | none => cases hs
    | some n =>
      obtain ⟨hn, -, hnatives, hclaims⟩ : _ ∧ _ ∧ _ ∧ _ := by simpa [emittedSlots] using hs
      obtain ⟨as₀, st₀, maps₀, n₀, hrun₀, hsame, -, -⟩ := handoff_transparent evalLoopTwice staleMaps 7 7 0x4010
        0x100 0xf0 hrun (by decide) (by rw [hclaims]; decide)
      have hroom : n ≠ maxFrames := by
        rw [hn]
        decide
      exact ⟨as₀, st₀, maps₀, n₀, hrun₀, (hsame.resolve_right fun hfull => hroom hfull.1).symm.trans hnatives⟩
  | _ => cases hs

end Walk

end PerfAgent.Bpf
