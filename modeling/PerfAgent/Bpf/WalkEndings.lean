import PerfAgent.Bpf.Walker
import PerfAgent.Lib.Machine

/-!
# How a walk ends

Six flags say how a walk came to its end.  Five of them are set where the walk stops.  The sixth,
that the chain of frame pointers has ended, is set one frame earlier: the walk goes on from there
without a frame pointer, and whatever it finds stops it.  So the only way to have two of the six
is to have that one and an opinion of the unwind tables about the last frame.

A frame that an interpreter claims stops the loop too, but sets none of the six, and the walk that
is resumed is where it was.
-/

namespace PerfAgent.Bpf

/-! ## The flags of an ending -/

def endingFlags : UInt16 :=
  walkerFlagFPTerminated ||| walkerFlagRAUndefined ||| walkerFlagFPExhausted ||| walkerFlagFPNonmonotonic |||
    walkerFlagRootDisagreement ||| walkerFlagRAZero

namespace SampleRecord

variable {r : SampleRecord} {n : Nat} {bits : UInt16}

def Has (r : SampleRecord) (bit : UInt16) : Prop := r.walkerFlags &&& bit ≠ 0

instance (r : SampleRecord) (bit : UInt16) : Decidable (r.Has bit) := inferInstanceAs (Decidable (_ ≠ _))

def ends (r : SampleRecord) : UInt16 := r.walkerFlags &&& endingFlags

theorem ends_flag : (r.flag bits).ends = r.ends ||| (bits &&& endingFlags) := by
  unfold ends flag
  exact UInt16.toBitVec_inj.mp (BitVec.and_or_distrib_right ..)

theorem has_iff {bit : UInt16} (h : endingFlags &&& bit = bit) : r.Has bit ↔ r.ends &&& bit ≠ 0 := by
  unfold Has ends
  rw [UInt16.and_assoc, h]

def endings : List UInt16 :=
  [0, walkerFlagFPTerminated, walkerFlagRAUndefined, walkerFlagFPExhausted, walkerFlagFPNonmonotonic,
    walkerFlagRAZero, walkerFlagFPTerminated ||| walkerFlagRAUndefined,
    walkerFlagFPTerminated ||| walkerFlagRootDisagreement]

def Closed (ends : UInt16) : Prop := ends ∈ endings

instance (ends : UInt16) : Decidable (Closed ends) := inferInstanceAs (Decidable (_ ∈ _))

theorem ends_recordPushNative (pc : UInt64) : (r.recordPushNative n pc).1.ends = r.ends := by
  unfold recordPushNative
  split
  · rw [ends_flag, show walkerFlagFramePushRefused &&& endingFlags = 0 from by decide, UInt16.or_zero]
  · rfl

theorem ends_recordPushInterp (tag : UInt8) (a b : UInt64) : (r.recordPushInterp n tag a b).1.ends = r.ends := by
  unfold recordPushInterp
  split
  · rw [ends_flag, show walkerFlagFramePushRefused &&& endingFlags = 0 from by decide, UInt16.or_zero]
  · rfl

theorem natives_recordPushNative (pc : UInt64) :
    ((r.recordPushNative n pc).1.natives (r.recordPushNative n pc).2.1).length ≤ (r.natives n).length + 1 := by
  unfold recordPushNative
  split
  · exact Nat.le_succ _
  · next h =>
    dsimp only
    rw [natives_set, if_pos rfl, List.length_append]
    rfl

theorem natives_recordPushInterp {tag : UInt8} (htag : tag ≠ frameTagNative) (a b : UInt64) :
    (r.recordPushInterp n tag a b).1.natives (r.recordPushInterp n tag a b).2.1 = r.natives n := by
  unfold recordPushInterp
  split
  · rfl
  · next h =>
    dsimp only
    rw [natives_set (next_lt h), natives_set, if_neg htag, if_neg htag, List.append_nil, List.append_nil]

end SampleRecord

open SampleRecord (Closed)
open Unwind (CFIEntry)

variable {w' : WalkCtx}

/-! ## One frame -/

namespace WalkCtx

variable {env : WalkEnv} {w : WalkCtx} {bits : UInt16}

def ends (w : WalkCtx) : UInt16 := w.maps.record.ends

def natives (w : WalkCtx) : List UInt64 := w.maps.record.natives w.nPcs

/-- The walk may go on: it has none of the flags, or it is past the end of the chain and has no
frame pointer. -/
def Open (w : WalkCtx) : Prop := w.ends = 0 ∨ w.ends = walkerFlagFPTerminated ∧ w.fp = 0

theorem fpChainEnded_iff : w.fpChainEnded = true ↔ w.ends &&& walkerFlagFPTerminated ≠ 0 := by
  unfold fpChainEnded
  rw [decide_eq_true_iff]
  exact SampleRecord.has_iff (by decide)

theorem fpChainEnded_congr (h : w'.ends = w.ends) : w'.fpChainEnded = true ↔ w.fpChainEnded = true := by
  rw [fpChainEnded_iff, fpChainEnded_iff, h]

theorem ends_flag : (w.flag bits).ends = w.ends ||| (bits &&& endingFlags) := SampleRecord.ends_flag

theorem Open.closed (h : w.Open) : Closed w.ends := by
  obtain h | ⟨h, -⟩ := h
  · rw [h]
    decide
  · rw [h]
    decide

theorem Open.ends_eq_zero (h : w.Open) (hchain : ¬w.fpChainEnded = true) : w.ends = 0 := by
  obtain h | ⟨h, -⟩ := h
  · exact h
  · rw [fpChainEnded_iff, h] at hchain
    exact absurd (by decide) hchain

theorem Open.ends_eq (h : w.Open) (hchain : w.fpChainEnded = true) : w.ends = walkerFlagFPTerminated ∧ w.fp = 0 := by
  obtain h | h := h
  · rw [fpChainEnded_iff, h] at hchain
    exact absurd (by decide) hchain
  · exact h

theorem fpChainEnded_flag (h : w.fpChainEnded = true) : (w.flag bits).fpChainEnded = true := by
  rw [fpChainEnded_iff] at h ⊢
  rw [ends_flag]
  intro hzero
  have hor : (w.ends ||| (bits &&& endingFlags)) &&& walkerFlagFPTerminated =
      w.ends &&& walkerFlagFPTerminated ||| (bits &&& endingFlags) &&& walkerFlagFPTerminated :=
    UInt16.toBitVec_inj.mp (BitVec.and_or_distrib_right ..)
  rw [hor] at hzero
  exact h (UInt16.or_eq_zero_iff.mp hzero).1

/-- What unwinding a frame does to an open walk.  It goes on only before the chain has ended; where
it stops, it is over unless it has handed off; and past the end of the chain it adds `pushes`
native frames at most. -/
structure Unwinds (pushes : Nat) (w : WalkCtx) (r : WalkCtx × Bool) : Prop where
  goes : r.2 = false → ¬w.fpChainEnded = true ∧ r.1.Open ∧ r.1.pendingUnwinder = w.pendingUnwinder
  stops : r.2 = true → Closed r.1.ends ∧ (r.1.pendingUnwinder = w.pendingUnwinder ∨ r.1.Open)
  past : w.fpChainEnded = true → r.1.fpChainEnded = true ∧ r.1.natives.length ≤ w.natives.length + pushes

theorem Unwinds.after {r : WalkCtx × Bool} {before pushes : Nat} (h : Unwinds pushes w' r) (hends : w'.ends = w.ends)
    (hpending : w'.pendingUnwinder = w.pendingUnwinder) (hnatives : w'.natives.length ≤ w.natives.length + before) :
    Unwinds (before + pushes) w r := by
  have hchain := fpChainEnded_congr hends
  refine ⟨?_, ?_, ?_⟩
  · intro hr
    obtain ⟨hno, hopen, hpend⟩ := h.goes hr
    exact ⟨fun hyes => hno (hchain.mpr hyes), hopen, hpend.trans hpending⟩
  · intro hr
    obtain ⟨hclosed, hpend | hopen⟩ := h.stops hr
    · exact ⟨hclosed, .inl (hpend.trans hpending)⟩
    · exact ⟨hclosed, .inr hopen⟩
  · intro hyes
    obtain ⟨hchain', hle⟩ := h.past (hchain.mpr hyes)
    exact ⟨hchain', by omega⟩

theorem Open.unwinds_stop (h : w.Open) : Unwinds 0 w (w, true) :=
  ⟨nofun, fun _ => ⟨h.closed, .inl rfl⟩, fun hchain => ⟨hchain, le_refl _⟩⟩

theorem unwinds_flag (hclosed : Closed (w.ends ||| (bits &&& endingFlags))) : Unwinds 0 w (w.flag bits, true) := by
  refine ⟨nofun, fun _ => ⟨?_, .inl rfl⟩, fun hchain => ⟨fpChainEnded_flag hchain, le_refl _⟩⟩
  show Closed (w.flag bits).ends
  rw [ends_flag]
  exact hclosed

theorem unwinds_advance {pc fp sp : UInt64} (hchain : ¬w.fpChainEnded = true) (hopen : (w'.advance pc fp sp).1.Open)
    (hpending : w'.pendingUnwinder = w.pendingUnwinder) : Unwinds 0 w (w'.advance pc fp sp) :=
  ⟨fun _ => ⟨hchain, hopen, hpending⟩, nofun, fun h => absurd h hchain⟩

theorem Open.unwindByRow (h : w.Open) (e : CFIEntry) : Unwinds 0 w (w.unwindByRow env e) := by
  unfold WalkCtx.unwindByRow
  dsimp only
  split
  · split
    · next hchain =>
      refine unwinds_flag ?_
      rw [(h.ends_eq hchain).1]
      decide
    · next hchain =>
      have hzero := h.ends_eq_zero hchain
      split
      · exact h.unwinds_stop
      · split
        · refine unwinds_flag ?_
          rw [hzero]
          decide
        · split
          · exact h.unwinds_stop
          · refine unwinds_advance hchain (.inl ?_) rfl
            show (w.flag walkerFlagDwarfUsed).ends = 0
            rw [ends_flag, hzero]
            rfl
  · refine unwinds_flag ?_
    obtain h | ⟨h, -⟩ := h
    · rw [h]
      decide
    · rw [h]
      decide
  · exact h.unwinds_stop

theorem ends_framePushNative (pc : UInt64) : (w.framePushNative pc).1.ends = w.ends :=
  SampleRecord.ends_recordPushNative pc

theorem natives_framePushNative (pc : UInt64) : (w.framePushNative pc).1.natives.length ≤ w.natives.length + 1 :=
  SampleRecord.natives_recordPushNative pc

theorem Open.unwindByFp (h : w.Open) : Unwinds 0 w (w.unwindByFp env) := by
  unfold WalkCtx.unwindByFp
  split
  · split
    · exact h.unwinds_stop
    · next hchain =>
      refine unwinds_flag ?_
      rw [h.ends_eq_zero hchain]
      decide
  · next hfp =>
    -- there is a frame pointer, so the chain has not ended
    have hchain : ¬w.fpChainEnded = true := fun hchain => hfp (h.ends_eq hchain).2
    have hzero := h.ends_eq_zero hchain
    split
    · exact h.unwinds_stop
    · split
      · exact h.unwinds_stop
      · split
        · split
          · have hends : (w.flag walkerFlagFPTerminated).ends = walkerFlagFPTerminated := by
              rw [ends_flag, hzero]
              rfl
            dsimp only
            split
            · refine unwinds_flag ?_
              rw [hzero]
              decide
            · exact unwinds_advance hchain (.inr ⟨hends, rfl⟩) rfl
          · have hends : (w.flag walkerFlagFPNonmonotonic).ends = walkerFlagFPNonmonotonic := by
              rw [ends_flag, hzero]
              rfl
            refine ⟨nofun, fun _ => ?_, fun hyes => absurd hyes hchain⟩
            dsimp only
            split
            · rw [ends_framePushNative, hends]
              exact ⟨by decide, .inl rfl⟩
            · rw [hends]
              exact ⟨by decide, .inl rfl⟩
        · exact unwinds_advance hchain (.inl hzero) rfl

structure Alike (w w' : WalkCtx) : Prop where
  ends : w'.ends = w.ends
  fp : w'.fp = w.fp
  pending : w'.pendingUnwinder = w.pendingUnwinder
  natives : w'.natives = w.natives

theorem Open.alike (h : w.Open) (ha : Alike w w') : w'.Open := by
  unfold Open at h ⊢
  rw [ha.ends, ha.fp]
  exact h

theorem Unwinds.of_alike {r : WalkCtx × Bool} (h : Unwinds 0 w' r) (ha : Alike w w') : Unwinds 0 w r :=
  h.after ha.ends ha.pending (le_of_eq (congrArg List.length ha.natives))

theorem alike_flag_cfiMiss (w : WalkCtx) : Alike w (w.flag walkerFlagCFIMiss) := by
  refine ⟨?_, rfl, rfl, rfl⟩
  rw [ends_flag, show walkerFlagCFIMiss &&& endingFlags = 0 from by decide, UInt16.or_zero]

theorem alike_misses (w : WalkCtx) (misses : List CFIMiss) :
    Alike w { w with maps := { w.maps with misses := misses } } := ⟨rfl, rfl, rfl, rfl⟩

theorem alike_count (w : WalkCtx) (stats : List InterpStat) :
    Alike w { w with maps := w.maps.count stats } := ⟨rfl, rfl, rfl, rfl⟩

theorem Open.unwindMapped (h : w.Open) (tableId relPc : UInt64) : Unwinds 0 w (w.unwindMapped env tableId relPc) := by
  unfold WalkCtx.unwindMapped
  by_cases htables : env.tables.cfiLengths.find? tableId ≠ none
  · simp only [if_pos htables]
    split
    · exact h.unwindByRow _
    · have ha := alike_flag_cfiMiss w
      exact (h.alike ha).unwindByFp.of_alike ha
  · simp only [if_neg htables]
    split
    · exact ((h.alike (alike_misses w _)).unwindByRow _).of_alike (alike_misses w _)
    · exact (h.alike (alike_misses w _)).unwindByFp.of_alike (alike_misses w _)

theorem Open.unwindPushed (h : w.Open) (lead : Bool) : Unwinds 0 w (w.unwindPushed env lead) := by
  unfold WalkCtx.unwindPushed
  split
  · exact h.unwindByFp
  · next tableId relPc _ =>
    split
    · dsimp only
      split
      · -- the frame is claimed: the walk stops, and is as open as before
        refine ⟨nofun, fun _ => ⟨h.closed, .inr h⟩, fun hchain => ⟨hchain, le_refl _⟩⟩
      · exact ((h.alike (alike_count w _)).unwindMapped tableId relPc).of_alike (alike_count w _)
    · exact h.unwindMapped tableId relPc

theorem Open.unwindFrame_lead (h : w.Open) : Unwinds 1 w (w.unwindFrame env true) := by
  have hends : (w.framePushNative w.pc).1.ends = w.ends := ends_framePushNative _
  have hopen : (w.framePushNative w.pc).1.Open := by
    unfold Open at h ⊢
    rw [hends]
    exact h
  unfold WalkCtx.unwindFrame
  rw [if_pos rfl]
  dsimp only
  split
  · next hfull =>
    have hstop : w.framePushNative w.pc = ((w.framePushNative w.pc).1, true) := Prod.ext rfl hfull
    rw [hstop]
    exact hopen.unwinds_stop.after hends rfl (natives_framePushNative _)
  · exact (hopen.unwindPushed true).after hends rfl (natives_framePushNative _)

theorem Open.unwindFrame_resumed (h : w.Open) : Unwinds 0 w (w.unwindFrame env false) :=
  h.unwindPushed false

end WalkCtx

variable (pairs : List InterpPair)

/-! ## A walk -/

section Modules

variable {r : SampleRecord × Nat}

theorem ends_pushPairs : (pushPairs r pairs).1.ends = r.1.ends := by
  induction pairs generalizing r with
  | nil => rfl
  | cons p ps ih =>
    rw [pushPairs, ih]
    exact SampleRecord.ends_recordPushInterp p.tag p.a p.b

theorem natives_pushPairs : (pushPairs r pairs).1.natives (pushPairs r pairs).2 = r.1.natives r.2 := by
  induction pairs generalizing r with
  | nil => rfl
  | cons p ps ih =>
    rw [pushPairs, ih]
    exact SampleRecord.natives_recordPushInterp p.tag_ne p.a p.b

end Modules

namespace Walk

/-- The registers and the cursor of the walk, on the stack or in the state that is kept. -/
def ctx : Walk → WalkCtx
  | .looping _ w _ => w
  | .looped _ w => w
  | .inModule st maps => walkLoad st maps
  | .resumeStep st maps => walkLoad st maps
  | .resumeWalk st maps => walkLoad st maps
  | .ended st maps _ => walkLoad st maps

def Idle (w : WalkCtx) : Prop := w.pendingUnwinder = unwinderNative

/-- The walk may go on as long as it can, and ends in one of the ways it may. -/
def Sound : Walk → Prop
  | .looping _ w _ => w.Open ∧ Idle w
  | .looped _ w => Closed w.ends ∧ (Idle w ∨ w.Open)
  | .inModule st maps => (walkLoad st maps).Open
  | .resumeStep st maps => (walkLoad st maps).Open ∧ Idle (walkLoad st maps)
  | .resumeWalk st maps =>
    Closed maps.record.ends ∧ (st.stopped = false → (walkLoad st maps).Open ∧ Idle (walkLoad st maps))
  | .ended _ maps _ => Closed maps.record.ends

/-- The native frames that the walk may still add past the end of the chain. -/
def allowance : Walk → Nat
  | .looping _ _ _ => 1
  | .resumeWalk st _ => if st.stopped then 0 else 1
  | _ => 0

variable {env : WalkEnv} {s s' : Walk} {a : WalkAction}

theorem sound_begin (maps : WalkMaps) (pid tid : UInt32) (pc fp sp : UInt64) : (begin maps pid tid pc fp sp).Sound :=
  ⟨.inl UInt16.zero_and, rfl⟩

/-- What a step comes to: the walk stays sound, and past the end of the chain it uses its allowance
up. -/
structure Passes (s s' : Walk) : Prop where
  sound : s'.Sound
  past : s.ctx.fpChainEnded = true → s'.ctx.fpChainEnded = true ∧
    s'.ctx.natives.length + s'.allowance ≤ s.ctx.natives.length + s.allowance

variable {as : List WalkAction}

section Steps

variable {st : WalkPersist} {w : WalkCtx} {maps : WalkMaps}

theorem passes_turn {idx : Nat} (h : (looping st w idx).Sound) (hstep : (looping st w idx).step env .turn = some s') :
    Passes (looping st w idx) s' := by
  obtain ⟨hopen, hidle⟩ := h
  unfold Walk.step at hstep
  dsimp only at hstep
  split at hstep
  · cases hstep
    have hframe : WalkCtx.Unwinds 1 w (w.unwindFrame env true) := hopen.unwindFrame_lead
    split
    · next hstop =>
      obtain ⟨hclosed, hpending⟩ := hframe.stops hstop
      exact ⟨⟨hclosed, hpending.imp_left fun hp => hp.trans hidle⟩, hframe.past⟩
    · next hgo =>
      obtain ⟨hchain, hopen', hpending⟩ := hframe.goes (Bool.eq_false_iff.mpr hgo)
      exact ⟨⟨hopen', hpending.trans hidle⟩, fun hyes => absurd hyes hchain⟩
  · cases hstep
    exact ⟨⟨hopen.closed, .inl hidle⟩, fun hyes => ⟨hyes, Nat.le_succ _⟩⟩

theorem passes_dispatch (h : (looped st w).Sound) (tailCall : Bool) :
    Passes (looped st w) (dispatch env st w tailCall) := by
  obtain ⟨hclosed, hopen⟩ := h
  unfold dispatch
  split
  · next hclaimed =>
    have hopen : w.Open := hopen.resolve_left hclaimed.2
    split
    · exact ⟨hclosed, fun hyes => ⟨hyes, le_refl _⟩⟩
    · dsimp only
      split
      · exact ⟨hopen, fun hyes => ⟨hyes, le_refl _⟩⟩
      · exact ⟨hclosed, fun hyes => ⟨hyes, le_refl _⟩⟩
  · exact ⟨hclosed, fun hyes => ⟨hyes, le_refl _⟩⟩

theorem passes_module (h : (inModule st maps).Sound) (run : ModuleRun) (tailCall : Bool) :
    Passes (inModule st maps) (if tailCall then .resumeStep (runModule st maps run).1 (runModule st maps run).2
      else .ended (runModule st maps run).1 (runModule st maps run).2 none) := by
  have hends : (walkLoad (runModule st maps run).1 (runModule st maps run).2).ends = (walkLoad st maps).ends :=
    ends_pushPairs run.pairs
  have hnatives : (walkLoad (runModule st maps run).1 (runModule st maps run).2).natives =
      (walkLoad st maps).natives := natives_pushPairs run.pairs
  have hopen : (walkLoad (runModule st maps run).1 (runModule st maps run).2).Open := by
    have h : (walkLoad st maps).Open := h
    unfold WalkCtx.Open at h ⊢
    rw [hends]
    exact h
  have hpast : (walkLoad st maps).fpChainEnded = true →
      (walkLoad (runModule st maps run).1 (runModule st maps run).2).fpChainEnded = true ∧
        (walkLoad (runModule st maps run).1 (runModule st maps run).2).natives.length + 0 ≤
          (walkLoad st maps).natives.length + 0 :=
    fun hyes => ⟨(WalkCtx.fpChainEnded_congr hends).mpr hyes, by rw [hnatives]⟩
  cases tailCall with
  | true => exact ⟨⟨hopen, rfl⟩, hpast⟩
  | false => exact ⟨hopen.closed, hpast⟩

/-- The step that a resumed walk begins with pushes nothing, and it goes on only before the chain
has ended. -/
theorem passes_resumeStep (h : (resumeStep st maps).Sound) (tailCall : Bool) :
    Passes (resumeStep st maps) (if tailCall then
        .resumeWalk (runResumeStep env st maps).1 (runResumeStep env st maps).2
      else .ended (runResumeStep env st maps).1 (runResumeStep env st maps).2 none) := by
  obtain ⟨hopen, hidle⟩ := h
  have ha := WalkCtx.alike_count (walkLoad st maps) [.resumed]
  have hframe : WalkCtx.Unwinds 0 (walkLoad st maps) ((walkLoad st (maps.count [.resumed])).unwindFrame env false) :=
    (hopen.alike ha).unwindFrame_resumed.of_alike ha
  unfold runResumeStep
  dsimp only
  generalize (walkLoad st (maps.count [.resumed])).unwindFrame env false = r at hframe
  obtain ⟨w, stops⟩ := r
  cases stops with
  | true =>
    obtain ⟨hclosed, -⟩ := hframe.stops rfl
    rw [Bool.or_true]
    cases tailCall with
    | true => exact ⟨⟨hclosed, nofun⟩, hframe.past⟩
    | false => exact ⟨hclosed, hframe.past⟩
  | false =>
    obtain ⟨hchain, hopen', hpending⟩ := hframe.goes rfl
    have hpast : ∀ {P : Prop}, (walkLoad st maps).fpChainEnded = true → P := fun hyes => absurd hyes hchain
    cases tailCall with
    | true => exact ⟨⟨hopen'.closed, fun _ => ⟨hopen', hpending.trans hidle⟩⟩, hpast⟩
    | false => exact ⟨hopen'.closed, hpast⟩

theorem passes_resumeWalk (h : (resumeWalk st maps).Sound) : Passes (resumeWalk st maps)
      (if st.stopped then finish st (walkLoad st maps) else .looping st (walkLoad st maps) 0) := by
  obtain ⟨hclosed, hopen⟩ := h
  cases hstopped : st.stopped with
  | true => exact ⟨hclosed, fun hyes => ⟨hyes, Nat.le_add_right _ _⟩⟩
  | false => exact ⟨hopen hstopped, fun hyes => ⟨hyes, by simp [allowance, hstopped, ctx]⟩⟩

end Steps

theorem Sound.passes (h : s.Sound) (hstep : s.step env a = some s') : Passes s s' := by
  cases s with
  | looping st w idx =>
    cases a with
    | turn => exact passes_turn h hstep
    | _ => cases hstep
  | looped st w =>
    cases a with
    | dispatch tailCall =>
      cases hstep
      exact passes_dispatch h tailCall
    | _ => cases hstep
  | inModule st maps =>
    cases a with
    | module run tailCall =>
      cases hstep
      exact passes_module h run tailCall
    | _ => cases hstep
  | resumeStep st maps =>
    cases a with
    | resumeStep tailCall =>
      cases hstep
      exact passes_resumeStep h tailCall
    | _ => cases hstep
  | resumeWalk st maps =>
    cases a with
    | resumeWalk =>
      cases hstep
      exact passes_resumeWalk h
    | _ => cases hstep
  | ended => cases hstep

/-! ## Runs -/

def record (s : Walk) : SampleRecord := s.ctx.maps.record

theorem Sound.closed (h : s.Sound) : Closed s.record.ends := by
  cases s with
  | looping st w idx => exact h.1.closed
  | looped st w => exact h.1
  | inModule st maps => exact WalkCtx.Open.closed h
  | resumeStep st maps => exact h.1.closed
  | resumeWalk st maps => exact h.1
  | ended st maps emitted => exact h

theorem Sound.run (h : s.Sound) (hrun : Run (fun s a s' => s.step env a = some s') s as s') : s'.Sound :=
  Run.invariant (I := fun _ s => s.Sound) h (fun _ _ _ _ _ hs hstep => (hs.passes hstep).sound) hrun

theorem allowance_le_one (s : Walk) : s.allowance ≤ 1 := by
  cases s with
  | resumeWalk st maps =>
    show (if st.stopped then 0 else 1) ≤ 1
    split
    · exact Nat.zero_le _
    · exact le_refl _
  | looping => exact le_refl _
  | _ => exact Nat.zero_le _

theorem Sound.run_past (h : s.Sound) (hchain : s.ctx.fpChainEnded = true)
    (hrun : Run (fun s a s' => s.step env a = some s') s as s') :
    s'.ctx.natives.length + s'.allowance ≤ s.ctx.natives.length + s.allowance := by
  have hinv := Run.invariant (I := fun _ s' => s'.Sound ∧ s'.ctx.fpChainEnded = true ∧
      s'.ctx.natives.length + s'.allowance ≤ s.ctx.natives.length + s.allowance)
    ⟨h, hchain, le_refl _⟩ ?_ hrun
  · exact hinv.2.2
  · rintro _ s₁ a s₂ - ⟨hs, hyes, hle⟩ hstep
    obtain ⟨hs', hpast⟩ := hs.passes hstep
    obtain ⟨hyes', hle'⟩ := hpast hyes
    exact ⟨hs', hyes', hle'.trans hle⟩

def exclusiveFlags : List UInt16 :=
  [walkerFlagRAUndefined, walkerFlagFPExhausted, walkerFlagFPNonmonotonic, walkerFlagRootDisagreement, walkerFlagRAZero]

def lostFlags : List UInt16 := [walkerFlagFPExhausted, walkerFlagFPNonmonotonic, walkerFlagRAZero]

theorem lost_exclusive {f : UInt16} (h : f ∈ lostFlags) : f ∈ exclusiveFlags := by
  have hall : lostFlags.all (fun f => decide (f ∈ exclusiveFlags)) = true := by decide
  exact of_decide_eq_true (List.all_eq_true.mp hall f h)

theorem has_iff_of_mem {r : SampleRecord} {f : UInt16} (h : f ∈ walkerFlagFPTerminated :: exclusiveFlags) :
    r.Has f ↔ r.ends &&& f ≠ 0 := by
  have hall : (walkerFlagFPTerminated :: exclusiveFlags).all (fun f => endingFlags &&& f == f) = true := by
    decide
  exact SampleRecord.has_iff (beq_iff_eq.mp (List.all_eq_true.mp hall f h))

theorem closed_exclusive {ends f g : UInt16} (h : Closed ends) (hf : f ∈ exclusiveFlags)
    (hg : g ∈ exclusiveFlags) (hhas : ends &&& f ≠ 0) (hhas' : ends &&& g ≠ 0) : f = g := by
  have hall : SampleRecord.endings.all (fun ends => exclusiveFlags.all fun f => exclusiveFlags.all fun g =>
      decide (ends &&& f ≠ 0 → ends &&& g ≠ 0 → f = g)) = true := by decide
  have hends := List.all_eq_true.mp hall ends h
  have hpair := List.all_eq_true.mp (List.all_eq_true.mp hends f hf) g hg
  exact of_decide_eq_true hpair hhas hhas'

theorem closed_terminated {ends f : UInt16} (h : Closed ends) (hchain : ends &&& walkerFlagFPTerminated ≠ 0)
    (hf : f ∈ lostFlags) : ends &&& f = 0 := by
  have hall : SampleRecord.endings.all (fun ends => lostFlags.all fun f =>
      decide (ends &&& walkerFlagFPTerminated ≠ 0 → ends &&& f = 0)) = true := by decide
  exact of_decide_eq_true (List.all_eq_true.mp (List.all_eq_true.mp hall ends h) f hf) hchain

theorem closed_root {ends : UInt16} (h : Closed ends) (hroot : ends &&& walkerFlagRootDisagreement ≠ 0) :
    ends &&& walkerFlagFPTerminated ≠ 0 := by
  have hall : SampleRecord.endings.all (fun ends =>
      decide (ends &&& walkerFlagRootDisagreement ≠ 0 → ends &&& walkerFlagFPTerminated ≠ 0)) = true := by
    decide
  exact of_decide_eq_true (List.all_eq_true.mp hall ends h) hroot

/-- In every state that a walk comes to: the record has at most one of the flags that exclude each
other; the end of the chain goes with none of those that say that the chain was lost or a return
address was zero; the tables disagree with the chain only where it has ended; and after the step
at which it ends at most one native frame is added. -/
theorem endings_unambiguous (env : WalkEnv) (maps : WalkMaps) (pid tid : UInt32) (pc fp sp : UInt64)
    {as : List WalkAction} {s : Walk}
    (h : Run (fun s a s' => s.step env a = some s') (begin maps pid tid pc fp sp) as s) :
    (∀ f ∈ exclusiveFlags, ∀ g ∈ exclusiveFlags, s.record.Has f → s.record.Has g → f = g) ∧
    (s.record.Has walkerFlagFPTerminated → ∀ f ∈ lostFlags, ¬s.record.Has f) ∧
    (s.record.Has walkerFlagRootDisagreement → s.record.Has walkerFlagFPTerminated) ∧
    ∀ {a s₁ as' s₂}, ¬s.record.Has walkerFlagFPTerminated → s.step env a = some s₁ →
      s₁.record.Has walkerFlagFPTerminated → Run (fun s a s' => s.step env a = some s') s₁ as' s₂ →
        s₂.ctx.natives.length ≤ s₁.ctx.natives.length + 1 := by
  have hs := (sound_begin maps pid tid pc fp sp).run h
  have hmem : ∀ {f}, f ∈ exclusiveFlags → f ∈ walkerFlagFPTerminated :: exclusiveFlags :=
    List.mem_cons_of_mem _
  refine ⟨?_, ?_, ?_, ?_⟩
  · intro f hf g hg hhas hhas'
    exact closed_exclusive hs.closed hf hg ((has_iff_of_mem (hmem hf)).mp hhas) ((has_iff_of_mem (hmem hg)).mp hhas')
  · intro hhas f hf hhas'
    exact (has_iff_of_mem (hmem (lost_exclusive hf))).mp hhas'
      (closed_terminated hs.closed ((has_iff_of_mem List.mem_cons_self).mp hhas) hf)
  · intro hhas
    exact (has_iff_of_mem List.mem_cons_self).mpr (closed_root hs.closed ((has_iff_of_mem (by decide)).mp hhas))
  · intro a s₁ as' s₂ _ hstep hchain hrun
    have hs₁ := (hs.passes hstep).sound
    have hchain : s₁.ctx.fpChainEnded = true := decide_eq_true hchain
    calc s₂.ctx.natives.length ≤ s₂.ctx.natives.length + s₂.allowance := Nat.le_add_right _ _
      _ ≤ s₁.ctx.natives.length + s₁.allowance := hs₁.run_past hchain hrun
      _ ≤ s₁.ctx.natives.length + 1 := Nat.add_le_add_left (allowance_le_one s₁) _

/-- `_start` at `0x5000`, of which the tables say that it has no caller. -/
def startRow : CFIEntry where
  pcStart := 0x1000
  pcEndDelta := 0x100
  cfaType := .sp
  fpType := .sameValue
  cfaOffset := 8
  fpOffset := 0
  raOffset := 0
  raType := .undefined

/-- One binary, in which an interpreter claims the addresses around `0x4010`; the frame there is the
last one with a frame pointer, and it was called from `_start`. -/
def claimedThenStart : WalkEnv where
  memory := fun addr => if addr = 0x100 then some 0 else if addr = 0x108 then some 0x5000 else none
  tables :=
    { cfiRules := (∅ : AssocMap UInt64 (List CFIEntry)).put 9 [startRow]
      cfiLengths := (∅ : AssocMap UInt64 UInt32).put 9 1
      pidMappings := (∅ : AssocMap UInt32 (List Unwind.PIDMapping)).put 7
        [{ vmaStart := 0x4000, vmaEnd := 0x6000, loadBias := 0x4000, tableID := 9 }]
      pidMappingLengths := (∅ : AssocMap UInt32 UInt32).put 7 1 }
  handoffRanges := (∅ : AssocMap UInt64 HandoffRange).put 9 ⟨#v[(0x10, 0x20), (0, 0), (0, 0)], 1⟩
  interpEnabled := true

def emptyMaps : WalkMaps where
  record := { walkerFlags := 0xffff, pcs := Vector.replicate _ 0, tags := Vector.replicate _ 1 }

def onePair : ModuleRun where
  pairs := [⟨1, by decide, 0xc0de, 0⟩]
  interpDone := 0
  interpScratch := Vector.replicate 4 0

theorem endings_unambiguous_claimedThenStart :
    ∃ s : Walk, Run (fun s a s' => s.step claimedThenStart a = some s') (begin emptyMaps 7 7 0x4010 0x100 0xf0)
        [.turn, .dispatch true, .module onePair true, .resumeStep true, .resumeWalk, .turn, .dispatch true] s ∧
      s.record.slots s.ctx.nPcs = [(0, 0x4010), (1, 0xc0de), (1, 0), (0, 0x5000)] ∧
      s.record.Has walkerFlagFPTerminated ∧ s.record.Has walkerFlagRAUndefined ∧
      ¬s.record.Has walkerFlagRootDisagreement ∧ ¬s.record.Has walkerFlagFPExhausted := by
  obtain ⟨s, hrun, hs⟩ := @exists_run _ _ (fun s a => s.step claimedThenStart a) (begin emptyMaps 7 7 0x4010 0x100 0xf0)
    [.turn, .dispatch true, .module onePair true, .resumeStep true, .resumeWalk, .turn, .dispatch true]
    (fun s => decide (s.record.slots s.ctx.nPcs = [(0, 0x4010), (1, 0xc0de), (1, 0), (0, 0x5000)] ∧
      s.record.Has walkerFlagFPTerminated ∧ s.record.Has walkerFlagRAUndefined)) (by decide +kernel)
  obtain ⟨hslots, hterminated, hundefined⟩ := of_decide_eq_true hs
  obtain ⟨hone, hexclude, -, -⟩ := endings_unambiguous claimedThenStart emptyMaps 7 7 0x4010 0x100 0xf0 hrun
  refine ⟨s, hrun, hslots, hterminated, hundefined, ?_, hexclude hterminated _ (by decide)⟩
  intro hroot
  exact absurd (hone _ (by decide) _ (by decide) hundefined hroot) (by decide)

end Walk

end PerfAgent.Bpf
