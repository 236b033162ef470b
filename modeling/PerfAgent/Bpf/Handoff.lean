import PerfAgent.Bpf.WalkEndings

/-!
# One frame, with and without interpreters

What `unwind_frame` does with a frame, compared with what it does without interpreters: it claims the
frame and leaves it, or it does the same.  The two records differ by the pairs of the interpreters, so
only the room that is left can make a difference.

`Segment` is the layout of a record: a native frame, and the pairs of the interpreter that has
claimed it.
-/

namespace PerfAgent.Bpf

def WalkEnv.native (env : WalkEnv) : WalkEnv := { env with interpEnabled := false }

theorem WalkEnv.native_memory (env : WalkEnv) : env.native.memory = env.memory := rfl

variable {w' : WalkCtx}

theorem WalkEnv.native_tables (env : WalkEnv) : env.native.tables = env.tables := rfl

namespace SampleRecord

variable {r r₀ : SampleRecord} {n : Nat}

def SameFlags (r r₀ : SampleRecord) : Prop :=
  r.walkerFlags ||| walkerFlagFramePushRefused = r₀.walkerFlags ||| walkerFlagFramePushRefused

theorem SameFlags.flag (h : SameFlags r r₀) (bits : UInt16) : SameFlags (r.flag bits) (r₀.flag bits) := by
  unfold SameFlags at h
  unfold SameFlags SampleRecord.flag
  dsimp only
  rw [UInt16.or_assoc, UInt16.or_comm bits, ← UInt16.or_assoc, h, UInt16.or_assoc, UInt16.or_comm _ bits,
    ← UInt16.or_assoc]

theorem SameFlags.refused (h : SameFlags r r₀) : SameFlags (r.flag walkerFlagFramePushRefused) r₀ := by
  unfold SameFlags SampleRecord.flag
  dsimp only
  rw [UInt16.or_assoc, UInt16.or_self]
  exact h

theorem SameFlags.refused_both (h : SameFlags r r₀) : SameFlags r (r₀.flag walkerFlagFramePushRefused) :=
  (SameFlags.refused h.symm).symm

theorem SameFlags.and_eq (h : SameFlags r r₀) {bit : UInt16} (hbit : walkerFlagFramePushRefused &&& bit = 0) :
    r.walkerFlags &&& bit = r₀.walkerFlags &&& bit := by
  have hand : ∀ flags : UInt16, (flags ||| walkerFlagFramePushRefused) &&& bit = flags &&& bit := by
    intro flags
    have hor : (flags ||| walkerFlagFramePushRefused) &&& bit = flags &&& bit ||| walkerFlagFramePushRefused &&& bit :=
      UInt16.toBitVec_inj.mp (BitVec.and_or_distrib_right ..)
    rw [hor, hbit, UInt16.or_zero]
  rw [← hand r.walkerFlags, ← hand r₀.walkerFlags, show _ = _ from h]

theorem sameFlags_recordPushNative (h : SameFlags r r₀) {n₀ : Nat} (pc pc₀ : UInt64) :
    SameFlags (r.recordPushNative n pc).1 (r₀.recordPushNative n₀ pc₀).1 := by
  have hpush : ∀ {r₁ : SampleRecord}, SameFlags r r₁ → SameFlags (r.recordPushNative n pc).1 r₁ := by
    intro r₁ h₁
    unfold recordPushNative
    split
    · exact h₁.refused
    · exact h₁
  refine hpush ?_
  unfold recordPushNative
  split
  · exact h.refused_both
  · exact h

theorem natives_recordPushNative_of_lt (h : n < maxFrames) (pc : UInt64) :
    (r.recordPushNative n pc).1.natives (r.recordPushNative n pc).2.1 = r.natives n ++ [pc] := by
  unfold recordPushNative
  rw [dif_neg (Nat.not_le.mpr h)]
  dsimp only
  rw [natives_set h, if_pos rfl]

theorem slots_recordPushNative_of_lt (h : n < maxFrames) (pc : UInt64) :
    (r.recordPushNative n pc).1.slots (r.recordPushNative n pc).2.1 = r.slots n ++ [(frameTagNative, pc)] := by
  unfold recordPushNative
  rw [dif_neg (Nat.not_le.mpr h)]
  exact slots_set h

theorem slots_min (n : Nat) : r.slots (min n maxFrames) = r.slots n := by
  obtain hle | hle := Nat.le_total n maxFrames
  · rw [Nat.min_eq_left hle]
  · obtain ⟨k, rfl⟩ := Nat.exists_eq_add_of_le hle
    have hnone : ∀ i ∈ (List.range k).map (maxFrames + ·), r.slot i = none := by
      intro i hi
      obtain ⟨j, -, rfl⟩ := List.mem_map.mp hi
      unfold slot
      rw [Vector.getElem?_eq_none (Nat.le_add_right _ _)]
      rfl
    unfold slots
    rw [Nat.min_eq_right hle, List.range_add, List.filterMap_append, List.filterMap_eq_nil_iff.mpr hnone,
      List.append_nil]

theorem natives_min (n : Nat) : r.natives (min n maxFrames) = r.natives n := by
  unfold natives
  rw [slots_min]

theorem recordPushNative_of_le (h : maxFrames ≤ n) (pc : UInt64) :
    r.recordPushNative n pc = (r.flag walkerFlagFramePushRefused, n, true) :=
  dif_pos h

theorem cursor_recordPushNative_of_lt (h : n < maxFrames) (pc : UInt64) :
    (r.recordPushNative n pc).2 = (n + 1, false) := by
  unfold recordPushNative
  rw [dif_neg (Nat.not_le.mpr h)]

end SampleRecord

namespace WalkCtx

open SampleRecord (SameFlags)
open Unwind (CFIEntry)

variable {env : WalkEnv} {w w₀ : WalkCtx}

/-! ## In step -/

structure Mirrors (w w₀ : WalkCtx) : Prop where
  pc : w.pc = w₀.pc
  fp : w.fp = w₀.fp
  sp : w.sp = w₀.sp
  pid : w.pid = w₀.pid
  natives : w.natives = w₀.natives
  flags : SameFlags w.maps.record w₀.maps.record
  le : w₀.nPcs ≤ w.nPcs

/-- The walk has no room left for what the other one may still have pushed. -/
structure Behind (w w₀ : WalkCtx) : Prop where
  full : maxFrames ≤ w.nPcs
  natives : w.natives <+: w₀.natives

/-- Both do the same: they go on from the same place, or they stop. -/
structure Follows (r r₀ : WalkCtx × Bool) : Prop where
  stops : r.2 = r₀.2
  goes : r.2 = false → Mirrors r.1 r₀.1
  ends : r.2 = true → Mirrors r.1 r₀.1 ∨ Behind r.1 r₀.1

theorem Mirrors.follows {stop : Bool} (h : Mirrors w w₀) : Follows (w, stop) (w₀, stop) :=
  ⟨rfl, fun _ => h, fun _ => .inl h⟩

theorem Mirrors.flag (h : Mirrors w w₀) (bits : UInt16) : Mirrors (w.flag bits) (w₀.flag bits) :=
  ⟨h.pc, h.fp, h.sp, h.pid, h.natives, h.flags.flag bits, h.le⟩

theorem Mirrors.misses (h : Mirrors w w₀) (misses misses₀ : List CFIMiss) :
    Mirrors { w with maps := { w.maps with misses := misses } }
      { w₀ with maps := { w₀.maps with misses := misses₀ } } :=
  ⟨h.pc, h.fp, h.sp, h.pid, h.natives, h.flags, h.le⟩

theorem Mirrors.count (h : Mirrors w w₀) (stats : List InterpStat) : Mirrors { w with maps := w.maps.count stats } w₀ :=
  ⟨h.pc, h.fp, h.sp, h.pid, h.natives, h.flags, h.le⟩

theorem Mirrors.advance (h : Mirrors w w₀) (pc fp sp : UInt64) : Follows (w.advance pc fp sp) (w₀.advance pc fp sp) :=
  Mirrors.follows ⟨rfl, rfl, rfl, h.pid, h.natives, h.flags, h.le⟩

theorem Mirrors.fpChainEnded (h : Mirrors w w₀) : w.fpChainEnded = w₀.fpChainEnded := by
  unfold WalkCtx.fpChainEnded
  rw [h.flags.and_eq (by decide)]

theorem framePushNative_of_lt (h : w.nPcs < maxFrames) (pc : UInt64) :
    (w.framePushNative pc).1.natives = w.natives ++ [pc] ∧ (w.framePushNative pc).1.nPcs = w.nPcs + 1 ∧
      (w.framePushNative pc).2 = false := by
  refine ⟨SampleRecord.natives_recordPushNative_of_lt h pc, ?_, ?_⟩
  · exact congrArg Prod.fst (SampleRecord.cursor_recordPushNative_of_lt h pc)
  · exact congrArg Prod.snd (SampleRecord.cursor_recordPushNative_of_lt h pc)

theorem framePushNative_of_le (h : maxFrames ≤ w.nPcs) (pc : UInt64) :
    w.framePushNative pc = (w.flag walkerFlagFramePushRefused, true) := by
  unfold framePushNative
  rw [SampleRecord.recordPushNative_of_le h]
  rfl

theorem natives_prefix_framePushNative (pc : UInt64) : w.natives <+: (w.framePushNative pc).1.natives := by
  by_cases h : w.nPcs < maxFrames
  · rw [(framePushNative_of_lt h pc).1]
    exact List.prefix_append _ _
  · rw [framePushNative_of_le (Nat.not_lt.mp h)]
    exact List.prefix_refl _

theorem Mirrors.framePushNative_of_lt (h : Mirrors w w₀) (hroom : w.nPcs < maxFrames) (pc : UInt64) :
    Mirrors (w.framePushNative pc).1 (w₀.framePushNative pc).1 := by
  obtain ⟨hnatives, hcursor, -⟩ := WalkCtx.framePushNative_of_lt hroom pc
  obtain ⟨hnatives₀, hcursor₀, -⟩ := WalkCtx.framePushNative_of_lt (h.le.trans_lt hroom) pc
  refine ⟨h.pc, h.fp, h.sp, h.pid, ?_, SampleRecord.sameFlags_recordPushNative h.flags pc pc, ?_⟩
  · rw [hnatives, hnatives₀, h.natives]
  · rw [hcursor, hcursor₀]
    exact Nat.succ_le_succ h.le

theorem Mirrors.framePushNative (h : Mirrors w w₀) (pc : UInt64) :
    Mirrors (w.framePushNative pc).1 (w₀.framePushNative pc).1 ∨
      Behind (w.framePushNative pc).1 (w₀.framePushNative pc).1 := by
  by_cases hroom : w.nPcs < maxFrames
  · exact .inl (h.framePushNative_of_lt hroom pc)
  · have hfull := Nat.not_lt.mp hroom
    rw [framePushNative_of_le hfull]
    refine .inr ⟨hfull, ?_⟩
    show w.natives <+: _
    rw [h.natives]
    exact natives_prefix_framePushNative pc

theorem Mirrors.callerFp (h : Mirrors w w₀) (e : CFIEntry) (cfa : UInt64) :
    w.callerFp env e cfa = w₀.callerFp env.native e cfa := by
  unfold WalkCtx.callerFp
  rw [h.fp]
  rfl

theorem Mirrors.unwindByRow (h : Mirrors w w₀) (e : CFIEntry) :
    Follows (w.unwindByRow env e) (w₀.unwindByRow env.native e) := by
  unfold WalkCtx.unwindByRow
  rw [h.fp, h.sp, env.native_memory]
  dsimp only
  split
  · rw [h.fpChainEnded]
    split
    · exact (h.flag _).follows
    · split
      · exact h.follows
      · split
        · exact (h.flag _).follows
        · rw [h.callerFp]
          split
          · exact h.follows
          · exact (h.flag _).advance _ _ _
  · exact (h.flag _).follows
  · exact h.follows

theorem Mirrors.unwindByFp (h : Mirrors w w₀) : Follows (w.unwindByFp env) (w₀.unwindByFp env.native) := by
  unfold WalkCtx.unwindByFp
  rw [h.fp, h.fpChainEnded, env.native_memory]
  split
  · split
    · exact h.follows
    · exact (h.flag _).follows
  · split
    · exact h.follows
    · split
      · exact h.follows
      · split
        · split
          · dsimp only
            split
            · exact (h.flag _).follows
            · rw [(h.flag walkerFlagFPTerminated).fp]
              exact (h.flag _).advance _ _ _
          · dsimp only
            split
            · exact ⟨rfl, fun hgo => absurd hgo.symm Bool.false_ne_true, fun _ => (h.flag _).framePushNative _⟩
            · exact (h.flag _).follows
        · exact h.advance _ _ _

theorem Mirrors.unwindMapped (h : Mirrors w w₀) (tableId relPc : UInt64) :
    Follows (w.unwindMapped env tableId relPc) (w₀.unwindMapped env.native tableId relPc) := by
  unfold WalkCtx.unwindMapped
  rw [env.native_tables]
  by_cases htables : env.tables.cfiLengths.find? tableId ≠ none
  · simp only [if_pos htables]
    split
    · exact h.unwindByRow _
    · exact (h.flag _).unwindByFp
  · simp only [if_neg htables]
    split
    · exact (h.misses _ _).unwindByRow _
    · exact (h.misses _ _).unwindByFp

theorem unwindPushed_native (lead : Bool) : w₀.unwindPushed env.native lead =
      match mappingForPc env.tables w₀.pid w₀.pc with
      | none => w₀.unwindByFp env.native
      | some (tableId, relPc) => w₀.unwindMapped env.native tableId relPc := rfl

theorem Mirrors.unwindPushed_resumed (h : Mirrors w w₀) :
    Follows (w.unwindPushed env false) (w₀.unwindPushed env.native true) := by
  rw [unwindPushed_native]
  unfold WalkCtx.unwindPushed
  rw [h.pid, h.pc]
  cases mappingForPc env.tables w₀.pid w₀.pc with
  | none => exact h.unwindByFp
  | some m =>
    dsimp only
    rw [Bool.and_false, if_neg Bool.false_ne_true]
    exact h.unwindMapped _ _

/-! ## What a frame adds -/

def slots (w : WalkCtx) : List (UInt8 × UInt64) := w.maps.record.slots w.nPcs

def claims (w : WalkCtx) : Nat := w.maps.counted.count .claimed

structure Plain (w w' : WalkCtx) : Prop where
  pending : w'.pendingUnwinder = w.pendingUnwinder
  pid : w'.pid = w.pid
  claims : w'.claims = w.claims
  slots : ∃ pcs : List UInt64, w'.slots = w.slots ++ pcs.map fun pc => (frameTagNative, pc)
  le : w.nPcs ≤ w'.nPcs

theorem Plain.refl (w : WalkCtx) : Plain w w :=
  ⟨rfl, rfl, rfl, ⟨[], (List.append_nil _).symm⟩, le_refl _⟩

theorem Plain.trans {w₁ w₂ : WalkCtx} (h : Plain w w₁) (h' : Plain w₁ w₂) : Plain w w₂ := by
  obtain ⟨pcs, hpcs⟩ := h.slots
  obtain ⟨pcs', hpcs'⟩ := h'.slots
  refine ⟨h'.pending.trans h.pending, h'.pid.trans h.pid, h'.claims.trans h.claims, ⟨pcs ++ pcs', ?_⟩, h.le.trans h'.le⟩
  rw [hpcs', hpcs, List.map_append, List.append_assoc]

theorem plain_of_slots (hpending : w'.pendingUnwinder = w.pendingUnwinder) (hpid : w'.pid = w.pid)
    (hclaims : w'.claims = w.claims) (hcursor : w'.nPcs = w.nPcs) (hslots : w'.slots = w.slots) : Plain w w' :=
  ⟨hpending, hpid, hclaims, ⟨[], by rw [hslots, List.map_nil, List.append_nil]⟩, hcursor.ge⟩

theorem Plain.natives_prefix (h : Plain w w') : w.natives <+: w'.natives := by
  obtain ⟨pcs, hpcs⟩ := h.slots
  show List.filterMap _ w.slots <+: List.filterMap _ w'.slots
  rw [hpcs, List.filterMap_append]
  exact List.prefix_append _ _

theorem plain_flag (bits : UInt16) : Plain w (w.flag bits) := plain_of_slots rfl rfl rfl rfl rfl

theorem plain_framePushNative (pc : UInt64) : Plain w (w.framePushNative pc).1 := by
  by_cases h : w.nPcs < maxFrames
  · refine ⟨rfl, rfl, rfl, ⟨[pc], SampleRecord.slots_recordPushNative_of_lt h pc⟩, ?_⟩
    rw [(framePushNative_of_lt h pc).2.1]
    exact Nat.le_succ _
  · rw [framePushNative_of_le (Nat.not_lt.mp h)]
    exact plain_flag _

theorem plain_unwindByRow (e : CFIEntry) : Plain w (w.unwindByRow env e).1 := by
  unfold WalkCtx.unwindByRow
  dsimp only
  split
  · split
    · exact plain_flag _
    · split
      · exact .refl w
      · split
        · exact plain_flag _
        · split
          · exact .refl w
          · exact plain_of_slots rfl rfl rfl rfl rfl
  · exact plain_flag _
  · exact .refl w

theorem plain_unwindByFp : Plain w (w.unwindByFp env).1 := by
  unfold WalkCtx.unwindByFp
  split
  · split
    · exact .refl w
    · exact plain_flag _
  · split
    · exact .refl w
    · split
      · exact .refl w
      · split
        · split
          · dsimp only
            split
            · exact plain_flag _
            · exact plain_of_slots rfl rfl rfl rfl rfl
          · dsimp only
            split
            · exact (plain_flag _).trans (plain_framePushNative _)
            · exact plain_flag _
        · exact plain_of_slots rfl rfl rfl rfl rfl

theorem plain_unwindMapped (tableId relPc : UInt64) : Plain w (w.unwindMapped env tableId relPc).1 := by
  have hmiss : ∀ miss, Plain w { w with maps := { w.maps with misses := miss } } :=
    fun _ => plain_of_slots rfl rfl rfl rfl rfl
  unfold WalkCtx.unwindMapped
  by_cases htables : env.tables.cfiLengths.find? tableId ≠ none
  · simp only [if_pos htables]
    split
    · exact plain_unwindByRow _
    · exact (plain_flag _).trans plain_unwindByFp
  · simp only [if_neg htables]
    split
    · exact (hmiss _).trans (plain_unwindByRow _)
    · exact (hmiss _).trans plain_unwindByFp

theorem plain_unwindPushed_resumed (env : WalkEnv) (w : WalkCtx) : Plain w (w.unwindPushed env false).1 := by
  unfold WalkCtx.unwindPushed
  split
  · exact plain_unwindByFp
  · rw [Bool.and_false, if_neg Bool.false_ne_true]
    exact plain_unwindMapped _ _

theorem plain_unwindPushed_native (lead : Bool) : Plain w (w.unwindPushed env.native lead).1 := by
  rw [unwindPushed_native]
  split
  · exact plain_unwindByFp
  · exact plain_unwindMapped _ _

/-! ## Claims -/

/-- An interpreter is there for the address, as long as some of them are not done. -/
def ClaimedAt (env : WalkEnv) (pid : UInt32) (pc : UInt64) : Prop :=
  ∃ tableId relPc done, mappingForPc env.tables pid pc = some (tableId, relPc) ∧
    (nextUnwinder env.handoffRanges tableId relPc done).2 ≠ unwinderNative

/-- The walk has stopped at a frame that is claimed, and has done nothing else with it. -/
structure Claims (env : WalkEnv) (w : WalkCtx) (r : WalkCtx × Bool) : Prop where
  enabled : env.interpEnabled = true
  stops : r.2 = true
  pending : r.1.pendingUnwinder ≠ unwinderNative
  claimedAt : ClaimedAt env w.pid w.pc
  claims : r.1.claims = w.claims + 1
  slots : r.1.slots = w.slots
  pc : r.1.pc = w.pc
  pid : r.1.pid = w.pid
  mirrors : ∀ {w₀}, Mirrors w w₀ → Mirrors r.1 w₀

theorem count_nextUnwinder (ranges : AssocMap UInt64 HandoffRange) (tableId relPc : UInt64) (done : UInt32) :
    (nextUnwinder ranges tableId relPc done).1.count .claimed = 0 := by
  unfold nextUnwinder
  split
  · rfl
  · split
    · split <;> rfl
    · rfl

theorem unwindPushed_lead (env : WalkEnv) (w : WalkCtx) : Claims env w (w.unwindPushed env true) ∨
      Plain w (w.unwindPushed env true).1 ∧
        ∀ {w₀}, Mirrors w w₀ → Follows (w.unwindPushed env true) (w₀.unwindPushed env.native true) := by
  cases hmap : mappingForPc env.tables w.pid w.pc with
  | none =>
    have heq : w.unwindPushed env true = w.unwindByFp env := by
      unfold WalkCtx.unwindPushed
      rw [hmap]
    rw [heq]
    refine .inr ⟨plain_unwindByFp, fun h => ?_⟩
    rw [unwindPushed_native, ← h.pid, ← h.pc, hmap]
    exact h.unwindByFp
  | some m =>
    have hfollows : ∀ {w'}, (∀ {w₀}, Mirrors w w₀ → Mirrors w' w₀) → ∀ {w₀}, Mirrors w w₀ →
        Follows (w'.unwindMapped env m.1 m.2) (w₀.unwindPushed env.native true) := by
      intro w' hw w₀ h
      rw [unwindPushed_native, ← h.pid, ← h.pc, hmap]
      exact (hw h).unwindMapped m.1 m.2
    by_cases henabled : env.interpEnabled = true
    · have hcount : ∀ stats : List InterpStat, stats.count .claimed = 0 →
          Plain w { w with maps := w.maps.count stats } := by
        intro stats hstats
        refine plain_of_slots rfl rfl ?_ rfl rfl
        show (w.maps.counted ++ stats).count _ = _
        rw [List.count_append, hstats]
        rfl
      have hzero := count_nextUnwinder env.handoffRanges m.1 m.2 w.interpDone
      by_cases hclaim : (nextUnwinder env.handoffRanges m.1 m.2 w.interpDone).2 ≠ unwinderNative
      · have heq : w.unwindPushed env true = ({ w with
            maps := (w.maps.count (nextUnwinder env.handoffRanges m.1 m.2 w.interpDone).1).count [.claimed]
            pendingUnwinder := (nextUnwinder env.handoffRanges m.1 m.2 w.interpDone).2 }, true) := by
          unfold WalkCtx.unwindPushed
          rw [hmap, henabled]
          exact if_pos hclaim
        rw [heq]
        refine .inl ⟨henabled, rfl, hclaim, ⟨m.1, m.2, w.interpDone, hmap, hclaim⟩, ?_, rfl, rfl, rfl, ?_⟩
        · show ((w.maps.counted ++ _) ++ [InterpStat.claimed]).count _ = _
          rw [List.count_append, List.count_append, hzero]
          rfl
        · exact fun h => ⟨h.pc, h.fp, h.sp, h.pid, h.natives, h.flags, h.le⟩
      · have heq : w.unwindPushed env true = WalkCtx.unwindMapped env { w with
            maps := w.maps.count (nextUnwinder env.handoffRanges m.1 m.2 w.interpDone).1 } m.1 m.2 := by
          unfold WalkCtx.unwindPushed
          rw [hmap, henabled]
          exact if_neg hclaim
        rw [heq]
        exact .inr ⟨(hcount _ hzero).trans (plain_unwindMapped _ _), hfollows fun h => h.count _⟩
    · have heq : w.unwindPushed env true = w.unwindMapped env m.1 m.2 := by
        unfold WalkCtx.unwindPushed
        rw [hmap, Bool.eq_false_iff.mpr henabled]
        rfl
      rw [heq]
      exact .inr ⟨plain_unwindMapped _ _, hfollows id⟩

end WalkCtx

/-- The tail call that the action makes, if it makes one, goes through. -/
def WalkAction.tailCalled : WalkAction → Bool
  | .dispatch tailCall => tailCall
  | .module _ tailCall => tailCall
  | .resumeStep tailCall => tailCall
  | .turn => true
  | .resumeWalk => true

variable (pairs : List InterpPair)

/-! ## What a module adds -/

section Modules

variable {r : SampleRecord × Nat} {r₀ : SampleRecord}

theorem recordPushInterp_of_lt {n : Nat} (h : maxFrames - 2 < n) (r : SampleRecord) (tag : UInt8) (a b : UInt64) :
    r.recordPushInterp n tag a b = (r.flag walkerFlagFramePushRefused, n, true) :=
  dif_pos h

theorem le_pushPairs (r : SampleRecord × Nat) (pairs : List InterpPair) : r.2 ≤ (pushPairs r pairs).2 := by
  induction pairs generalizing r with
  | nil => exact Nat.le_refl _
  | cons p ps ih =>
    refine Nat.le_trans ?_ (ih ((r.1.recordPushInterp r.2 p.tag p.a p.b).1, _))
    unfold SampleRecord.recordPushInterp
    split
    · exact Nat.le_refl _
    · exact Nat.le_add_right _ _

theorem sameFlags_pushPairs (h : SampleRecord.SameFlags r.1 r₀) : SampleRecord.SameFlags (pushPairs r pairs).1 r₀ := by
  induction pairs generalizing r with
  | nil => exact h
  | cons p ps ih =>
    refine ih (r := ((r.1.recordPushInterp r.2 p.tag p.a p.b).1, _)) ?_
    unfold SampleRecord.recordPushInterp
    split
    · exact h.refused
    · exact h

def InterpPair.slots (p : InterpPair) : List (UInt8 × UInt64) := [(p.tag, p.a), (p.tag, p.b)]

/-- The pairs that a record with the cursor at `n` has room for. -/
def accepted (n : Nat) (pairs : List InterpPair) : List InterpPair := pairs.take ((maxFrames - n) / 2)

theorem slots_pushPairs : (pushPairs r pairs).1.slots (pushPairs r pairs).2 =
      r.1.slots r.2 ++ (accepted r.2 pairs).flatMap InterpPair.slots := by
  induction pairs generalizing r with
  | nil =>
    rw [accepted, List.take_nil]
    exact (List.append_nil _).symm
  | cons p ps ih =>
    rw [pushPairs, ih]
    by_cases hfull : maxFrames - 2 < r.2
    · -- what comes after a refused pair is refused too
      rw [recordPushInterp_of_lt hfull]
      have hnone : (maxFrames - r.2) / 2 = 0 := by
        unfold maxFrames at hfull ⊢
        omega
      unfold accepted
      rw [hnone]
      rfl
    · have hnext := SampleRecord.next_lt hfull
      have hroom : (maxFrames - r.2) / 2 = (maxFrames - (r.2 + 2)) / 2 + 1 := by omega
      unfold SampleRecord.recordPushInterp accepted
      rw [dif_neg hfull, hroom]
      dsimp only
      rw [SampleRecord.slots_set hnext, SampleRecord.slots_set, List.take_succ_cons, List.flatMap_cons]
      simp only [List.append_assoc]
      rfl

end Modules

/-! ## The layout of a record -/

structure Segment where
  frame : UInt64
  claim : Option (List InterpPair)
deriving DecidableEq

def Segment.slots (g : Segment) : List (UInt8 × UInt64) :=
  (frameTagNative, g.frame) :: (g.claim.getD []).flatMap InterpPair.slots

def moduleRuns (as : List WalkAction) : List ModuleRun :=
  as.filterMap fun
    | .module run _ => some run
    | _ => none

/-- The segments of a record after these modules: the claims are theirs, in order, as far as there was
room, and each is for a frame that is claimed. -/
structure Layout (env : WalkEnv) (pid : UInt32) (runs : List ModuleRun) (slots : List (UInt8 × UInt64))
    (segments : List Segment) : Prop where
  slots : slots = segments.flatMap Segment.slots
  claims : List.Forall₂ (fun run pairs => pairs <+: run.pairs) runs (segments.filterMap Segment.claim)
  claimed : ∀ g ∈ segments, g.claim ≠ none → WalkCtx.ClaimedAt env pid g.frame

namespace Layout

variable {env : WalkEnv} {pid : UInt32} {runs : List ModuleRun} {slots : List (UInt8 × UInt64)}
  {segments : List Segment}

theorem append_natives (h : Layout env pid runs slots segments) (pcs : List UInt64) :
    Layout env pid runs (slots ++ pcs.map fun pc => (frameTagNative, pc))
      (segments ++ pcs.map fun pc => ⟨pc, none⟩) := by
  have hslots : ∀ pcs : List UInt64, (pcs.map fun pc => (⟨pc, none⟩ : Segment)).flatMap Segment.slots =
      pcs.map fun pc => (frameTagNative, pc) := by
    intro pcs
    induction pcs with
    | nil => rfl
    | cons pc pcs ih =>
      rw [List.map_cons, List.flatMap_cons, ih]
      rfl
  have hclaims : ∀ pcs : List UInt64, (pcs.map fun pc => (⟨pc, none⟩ : Segment)).filterMap Segment.claim = [] := by
    intro pcs
    rw [List.filterMap_map]
    exact List.filterMap_eq_nil_iff.mpr fun _ _ => rfl
  refine ⟨?_, ?_, ?_⟩
  · rw [List.flatMap_append, hslots, h.slots]
  · rw [List.filterMap_append, hclaims, List.append_nil]
    exact h.claims
  · intro g hg hclaim
    obtain hg | hg := List.mem_append.mp hg
    · exact h.claimed g hg hclaim
    · obtain ⟨pc, -, rfl⟩ := List.mem_map.mp hg
      exact absurd rfl hclaim

theorem append_pairs {pc : UInt64} (h : Layout env pid runs slots (segments ++ [⟨pc, none⟩]))
    (hclaimed : WalkCtx.ClaimedAt env pid pc) (run : ModuleRun) {pairs : List InterpPair}
    (hpairs : pairs <+: run.pairs) :
    Layout env pid (runs ++ [run]) (slots ++ pairs.flatMap InterpPair.slots) (segments ++ [⟨pc, some pairs⟩]) := by
  refine ⟨?_, ?_, ?_⟩
  · rw [h.slots, List.flatMap_append, List.flatMap_append, List.flatMap_singleton, List.flatMap_singleton,
      List.append_assoc]
    rfl
  · have hclaims := h.claims
    rw [List.filterMap_append] at hclaims ⊢
    rw [show List.filterMap Segment.claim [⟨pc, none⟩] = [] from rfl, List.append_nil] at hclaims
    exact List.rel_append hclaims (.cons hpairs .nil)
  · intro g hg hclaim
    obtain hg | hg := List.mem_append.mp hg
    · exact h.claimed g (List.mem_append_left _ hg) hclaim
    · obtain rfl := List.mem_singleton.mp hg
      exact hclaimed

end Layout

end PerfAgent.Bpf
