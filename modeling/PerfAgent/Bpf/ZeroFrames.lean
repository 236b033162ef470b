import PerfAgent.Bpf.Handoff

/-!
# Frames at address zero

Three places of `unwind_frame` take a return address.  The step by a row and the one at the end of
the frame-pointer chain refuse a zero; the step along the chain does not, and the frame that it
leads to is pushed when there is room for it.
-/

namespace PerfAgent.Bpf

open Unwind (CFIEntry)

namespace WalkCtx

variable {env : WalkEnv} {w w' : WalkCtx} {zero : Prop}

/-- The frame pointer leads on, and the slot of the return address holds zero. -/
def ZeroSlot (env : WalkEnv) (w : WalkCtx) : Prop :=
  w.fp ≠ 0 ∧ ∃ savedFp, env.memory w.fp = some savedFp ∧ w.fp < savedFp ∧ env.memory (w.fp + 8) = some 0

def NoRow (env : WalkEnv) (w : WalkCtx) : Prop :=
  ∀ tableId relPc, mappingForPc env.tables w.pid w.pc = some (tableId, relPc) →
    env.tables.cfiLookup tableId relPc = none

def Unclaimed (env : WalkEnv) (w : WalkCtx) : Prop :=
  env.interpEnabled = true → ∀ tableId relPc, mappingForPc env.tables w.pid w.pc = some (tableId, relPc) →
    (nextUnwinder env.handoffRanges tableId relPc w.interpDone).2 = unwinderNative

def ZeroReturn (env : WalkEnv) (w : WalkCtx) : Prop := w.NoRow env ∧ w.ZeroSlot env

/-- What the unwinding of a frame comes to, where `zero` says that it reads a zero on the chain. -/
structure Steps (zero : Prop) (w : WalkCtx) (r : WalkCtx × Bool) : Prop where
  kept : w.natives <+: r.1.natives
  le : w.nPcs ≤ r.1.nPcs
  goes : r.2 = false → r.1.natives = w.natives ∧ r.1.nPcs = w.nPcs ∧ (r.1.pc = 0 ↔ zero)
  stops : r.2 = true → r.1.pc = w.pc ∧ ∀ x ∈ r.1.natives, x ∈ w.natives ∨ x ≠ 0
  reads : zero → r.2 = false

theorem Steps.congr {zero' : Prop} {r : WalkCtx × Bool} (h : Steps zero w r) (hzero : zero ↔ zero') : Steps zero' w r :=
  ⟨h.kept, h.le, fun hgo => ⟨(h.goes hgo).1, (h.goes hgo).2.1, (h.goes hgo).2.2.trans hzero⟩, h.stops,
    fun hz => h.reads (hzero.mpr hz)⟩

theorem steps_stop (hzero : ¬zero) (hpc : w'.pc = w.pc) (hle : w'.nPcs = w.nPcs) (hnatives : w'.natives = w.natives) :
    Steps zero w (w', true) :=
  ⟨hnatives ▸ List.prefix_refl _, hle.ge, nofun, fun _ => ⟨hpc, fun _ hx => .inl (hnatives ▸ hx)⟩,
    fun hz => absurd hz hzero⟩

theorem steps_advance {pc fp sp : UInt64} (hle : w'.nPcs = w.nPcs) (hnatives : w'.natives = w.natives)
    (hzero : pc = 0 ↔ zero) : Steps zero w (w'.advance pc fp sp) :=
  ⟨(hnatives.symm : w.natives = (w'.advance pc fp sp).1.natives) ▸ List.prefix_refl _, hle.ge,
    fun _ => ⟨hnatives, hle, hzero⟩, nofun, fun _ => rfl⟩

theorem Steps.after {r : WalkCtx × Bool} (h : Steps zero w' r) (hpc : w'.pc = w.pc) (hle : w'.nPcs = w.nPcs)
    (hnatives : w'.natives = w.natives) : Steps zero w r where
  kept := hnatives ▸ h.kept
  le := hle ▸ h.le
  goes hgo := ⟨(h.goes hgo).1.trans hnatives, (h.goes hgo).2.1.trans hle, (h.goes hgo).2.2⟩
  stops hstop := ⟨(h.stops hstop).1.trans hpc, fun x hx => hnatives ▸ (h.stops hstop).2 x hx⟩
  reads := h.reads

theorem mem_natives_framePushNative {pc x : UInt64} (h : x ∈ (w.framePushNative pc).1.natives) :
    x ∈ w.natives ∨ x = pc := by
  by_cases hroom : w.nPcs < maxFrames
  · rw [(framePushNative_of_lt hroom pc).1] at h
    exact (List.mem_append.mp h).imp_right List.mem_singleton.mp
  · rw [framePushNative_of_le (Nat.not_lt.mp hroom)] at h
    exact .inl h

theorem steps_unwindByRow (e : CFIEntry) : Steps False w (w.unwindByRow env e) := by
  unfold WalkCtx.unwindByRow
  dsimp only
  split
  · split
    · exact steps_stop id rfl rfl rfl
    · split
      · exact steps_stop id rfl rfl rfl
      · split
        · exact steps_stop id rfl rfl rfl
        · next hne =>
          split
          · exact steps_stop id rfl rfl rfl
          · exact steps_advance rfl rfl (iff_false_intro hne)
  · exact steps_stop id rfl rfl rfl
  · exact steps_stop id rfl rfl rfl

theorem steps_unwindByFp : Steps (w.ZeroSlot env) w (w.unwindByFp env) := by
  unfold WalkCtx.unwindByFp
  split
  · next hfp =>
    have hno : ¬w.ZeroSlot env := fun h => h.1 hfp
    split
    · exact steps_stop hno rfl rfl rfl
    · exact steps_stop hno rfl rfl rfl
  · next hfp =>
    split
    · next hread => exact steps_stop (fun ⟨_, _, h, _⟩ => by rw [hread] at h; cases h) rfl rfl rfl
    · next savedFp hsaved =>
      split
      · next hread => exact steps_stop (fun ⟨_, _, _, _, h⟩ => by rw [hread] at h; cases h) rfl rfl rfl
      · next retAddr hret =>
        split
        · next hle =>
          have hno : ¬w.ZeroSlot env := by
            rintro ⟨_, savedFp', h, hlt, _⟩
            rw [hsaved] at h
            cases h
            exact absurd hle (UInt64.not_le.mpr hlt)
          split
          · dsimp only
            split
            · exact steps_stop hno rfl rfl rfl
            · next hne => exact steps_advance rfl rfl (iff_of_false hne hno)
          · dsimp only
            split
            · next hne =>
              -- the one push of this step is guarded
              have hplain := plain_framePushNative (w := w.flag walkerFlagFPNonmonotonic) retAddr
              refine ⟨hplain.natives_prefix, hplain.le, nofun, fun _ => ⟨rfl, fun x hx => ?_⟩, fun hz => absurd hz hno⟩
              exact (mem_natives_framePushNative hx).imp_right fun heq => ne_of_eq_of_ne heq hne
            · exact steps_stop hno rfl rfl rfl
        · next hgt =>
          refine steps_advance rfl rfl ⟨?_, ?_⟩
          · rintro rfl
            exact ⟨hfp, savedFp, hsaved, UInt64.not_le.mp hgt, hret⟩
          · rintro ⟨-, _, -, -, h⟩
            rw [hret] at h
            exact Option.some.inj h

theorem steps_unwindMapped (env : WalkEnv) (w : WalkCtx) (tableId relPc : UInt64) :
    Steps (env.tables.cfiLookup tableId relPc = none ∧ w.ZeroSlot env) w (w.unwindMapped env tableId relPc) := by
  unfold WalkCtx.unwindMapped
  dsimp only
  cases hrow : env.tables.cfiLookup tableId relPc with
  | some e =>
    have hno : False ↔ some e = none ∧ w.ZeroSlot env := iff_of_false id nofun
    dsimp only
    split
    · exact (steps_unwindByRow e).congr hno
    · refine Steps.congr (Steps.after (steps_unwindByRow e) ?_ ?_ ?_) hno
      all_goals rfl
  | none =>
    have hyes : w.ZeroSlot env ↔ none = (none : Option CFIEntry) ∧ w.ZeroSlot env := (and_iff_right rfl).symm
    dsimp only
    split
    · refine Steps.congr (Steps.after steps_unwindByFp ?_ ?_ ?_) hyes
      all_goals rfl
    · refine Steps.congr (Steps.after steps_unwindByFp ?_ ?_ ?_) hyes
      all_goals rfl

theorem noRow_iff {tableId relPc : UInt64} (h : mappingForPc env.tables w.pid w.pc = some (tableId, relPc)) :
    w.NoRow env ↔ env.tables.cfiLookup tableId relPc = none := by
  constructor
  · exact fun hno => hno _ _ h
  · rintro hno t r hm
    rw [h] at hm
    cases hm
    exact hno

theorem noRow_of_none (h : mappingForPc env.tables w.pid w.pc = none) : w.NoRow env := by
  intro t r hm
  rw [h] at hm
  cases hm

theorem steps_unwindPushed_resumed (env : WalkEnv) (w : WalkCtx) :
    Steps (w.ZeroReturn env) w (w.unwindPushed env false) := by
  unfold WalkCtx.unwindPushed
  split
  · next hm => exact steps_unwindByFp.congr (and_iff_right (noRow_of_none hm)).symm
  · next tableId relPc hm =>
    rw [Bool.and_false, if_neg Bool.false_ne_true]
    exact (steps_unwindMapped env _ tableId relPc).congr (and_congr_left' (noRow_iff hm).symm)

theorem steps_unwindPushed_lead (env : WalkEnv) (w : WalkCtx) :
    Steps (w.Unclaimed env ∧ w.ZeroReturn env) w (w.unwindPushed env true) := by
  unfold WalkCtx.unwindPushed
  split
  · next hm =>
    refine steps_unwindByFp.congr ⟨fun h => ⟨fun _ t r ht => ?_, noRow_of_none hm, h⟩, fun h => h.2.2⟩
    rw [hm] at ht
    cases ht
  · next tableId relPc hm =>
    have hmapped := steps_unwindMapped env w tableId relPc
    have hrow : _ ∧ w.ZeroSlot env ↔ w.ZeroReturn env := and_congr_left' (noRow_iff hm).symm
    split
    · next henabled =>
      have hon : env.interpEnabled = true := (Bool.and_eq_true_iff.mp henabled).1
      dsimp only
      split
      · next hclaimed => exact steps_stop (fun h => hclaimed (h.1 hon _ _ hm)) rfl rfl rfl
      · next hfree =>
        have hun : w.Unclaimed env := by
          intro _ t r ht
          rw [hm] at ht
          cases ht
          exact not_not.mp hfree
        refine Steps.congr (Steps.after (steps_unwindMapped env _ tableId relPc) ?_ ?_ ?_)
          (hrow.trans (and_iff_right hun).symm)
        all_goals rfl
    · next hoff =>
      have hun : w.Unclaimed env := fun hon => absurd (Bool.and_eq_true_iff.mpr ⟨hon, rfl⟩) hoff
      exact hmapped.congr (hrow.trans (and_iff_right hun).symm)

end WalkCtx

/-! ## Walks -/

namespace Walk

variable {env : WalkEnv} {s s' : Walk} {a : WalkAction}

/-- The step along the chain that is to be taken reads a zero, and there is room for the frame that
it leads to. -/
def ReadsZero (env : WalkEnv) : Walk → Prop
  | .looping _ w _ => w.nPcs + 1 < maxFrames ∧ w.Unclaimed env ∧ w.ZeroReturn env
  | .resumeStep st maps => st.nPcs < maxFrames ∧ (walkLoad st maps).ZeroReturn env
  | _ => False

/-- A walk that has stopped is not taken up again, the turns of the loop are counted by the frames,
and what is emitted is what has been pushed. -/
def Counted : Walk → Prop
  | .looping st w idx => st.stopped = false ∧ idx ≤ w.nPcs
  | .looped st _ | .inModule st _ | .resumeStep st _ => st.stopped = false
  | .resumeWalk _ _ => True
  | .ended st _ emitted => ∀ n, emitted = some n → n = min st.nPcs maxFrames

def Tainted : Walk → Prop
  | .looping _ w _ => 0 ∈ w.natives ∨ w.pc = 0 ∧ w.nPcs < maxFrames
  | .resumeWalk st maps =>
    0 ∈ (walkLoad st maps).natives ∨ st.stopped = false ∧ st.pc = 0 ∧ st.nPcs < maxFrames
  | .ended st maps emitted => emitted ≠ none → 0 ∈ (walkLoad st maps).natives
  | s => 0 ∈ s.ctx.natives

/-- No frame is at zero, and if the walk is there, the record is full. -/
def Clean (s : Walk) : Prop :=
  (∀ x ∈ s.ctx.natives, x ≠ 0) ∧ (s.ctx.pc ≠ 0 ∨ maxFrames ≤ s.ctx.nPcs)

section Steps

variable {st : WalkPersist} {w : WalkCtx} {idx : Nat}

theorem turn_of_lt (env : WalkEnv) (st : WalkPersist) (hroom : w.nPcs < maxFrames) (hidx : idx ≤ w.nPcs) :
    ∃ w₁ : WalkCtx, w₁.natives = w.natives ++ [w.pc] ∧ w₁.nPcs = w.nPcs + 1 ∧ w₁.pc = w.pc ∧
      (w.Unclaimed env ∧ w.ZeroReturn env ↔ w₁.Unclaimed env ∧ w₁.ZeroReturn env) ∧
      (looping st w idx).step env .turn =
        some (if (w₁.unwindPushed env true).2 then looped st (w₁.unwindPushed env true).1
          else looping st (w₁.unwindPushed env true).1 (idx + 1)) := by
  obtain ⟨hnatives, hcursor, hok⟩ := WalkCtx.framePushNative_of_lt hroom w.pc
  have hframe : w.unwindFrame env true = (w.framePushNative w.pc).1.unwindPushed env true := by
    unfold WalkCtx.unwindFrame
    dsimp only
    rw [if_pos rfl, hok]
    exact if_neg Bool.false_ne_true
  refine ⟨(w.framePushNative w.pc).1, hnatives, hcursor, rfl, Iff.rfl, ?_⟩
  unfold Walk.step
  dsimp only
  rw [if_pos (hidx.trans_lt hroom), hframe]

theorem turn_of_le (hfull : maxFrames ≤ w.nPcs) : (looping st w idx).step env .turn =
      some (looped st (if idx < maxFrames then w.flag walkerFlagFramePushRefused else w)) := by
  unfold Walk.step WalkCtx.unwindFrame
  dsimp only
  rw [WalkCtx.framePushNative_of_le hfull]
  split
  · rfl
  · rfl

theorem natives_runModule (st : WalkPersist) (maps : WalkMaps) (run : ModuleRun) :
    (walkLoad (runModule st maps run).1 (runModule st maps run).2).natives = (walkLoad st maps).natives :=
  natives_pushPairs run.pairs

theorem steps_resumed (env : WalkEnv) (st : WalkPersist) (maps : WalkMaps) :
    WalkCtx.Steps ((walkLoad st maps).ZeroReturn env) (walkLoad st maps)
    ((walkLoad st (maps.count [.resumed])).unwindFrame env false) := by
  have hsteps := WalkCtx.steps_unwindPushed_resumed env (walkLoad st (maps.count [.resumed]))
  exact hsteps.after rfl rfl rfl

theorem Counted.step (h : s.Counted) (hs : s.step env a = some s') : s'.Counted := by
  cases s with
  | looping st w idx =>
    obtain ⟨hgo, hidx⟩ := h
    cases a with
    | turn =>
      by_cases hroom : w.nPcs < maxFrames
      · obtain ⟨w₁, -, hcursor, -, -, hturn⟩ := turn_of_lt env st hroom hidx
        rw [hturn] at hs
        cases hs
        split
        · exact hgo
        · have hle := (WalkCtx.steps_unwindPushed_lead env w₁).le
          exact ⟨hgo, (Nat.succ_le_succ hidx).trans (hcursor.ge.trans hle)⟩
      · rw [turn_of_le (Nat.not_lt.mp hroom)] at hs
        cases hs
        exact hgo
    | _ => cases hs
  | looped st w =>
    cases a with
    | dispatch tailCall =>
      cases hs
      unfold dispatch
      split
      · split
        · exact fun n hn => (Option.some.inj hn).symm
        · dsimp only
          split
          · exact h
          · exact fun n hn => (Option.some.inj hn).symm
      · exact fun n hn => (Option.some.inj hn).symm
    | _ => cases hs
  | inModule st maps =>
    cases a with
    | module run tailCall =>
      cases hs
      split
      · exact h
      · exact fun _ hn => by cases hn
    | _ => cases hs
  | resumeStep st maps =>
    cases a with
    | resumeStep tailCall =>
      cases hs
      split
      · exact trivial
      · exact fun _ hn => by cases hn
    | _ => cases hs
  | resumeWalk st maps =>
    cases a with
    | resumeWalk =>
      cases hs
      split
      · exact fun n hn => (Option.some.inj hn).symm
      · next hgo => exact ⟨Bool.eq_false_iff.mpr hgo, Nat.zero_le _⟩
    | _ => cases hs
  | ended => cases hs

theorem tainted_of_readsZero (h : s.Counted) (hzero : s.ReadsZero env) (hs : s.step env a = some s') :
    s'.Tainted := by
  cases s with
  | looping st w idx =>
    obtain ⟨hroom, hread⟩ := hzero
    cases a with
    | turn =>
      obtain ⟨w₁, -, hcursor, -, hiff, hturn⟩ := turn_of_lt env st (Nat.lt_of_succ_lt hroom) h.2
      have hsteps := WalkCtx.steps_unwindPushed_lead env w₁
      have hgo := hsteps.reads (hiff.mp hread)
      obtain ⟨-, hn, hpc⟩ := hsteps.goes hgo
      rw [hturn, hgo] at hs
      cases hs
      exact .inr ⟨hpc.mpr (hiff.mp hread), by rw [hn, hcursor]; exact hroom⟩
    | _ => cases hs
  | resumeStep st maps =>
    obtain ⟨hroom, hread⟩ := hzero
    cases a with
    | resumeStep tailCall =>
      have hsteps := steps_resumed env st maps
      have hgo := hsteps.reads hread
      obtain ⟨-, hn, hpc⟩ := hsteps.goes hgo
      cases hs
      split
      · refine .inr ⟨?_, hpc.mpr hread, lt_of_eq_of_lt hn hroom⟩
        show (st.stopped || _) = false
        rw [hgo, Bool.or_false]
        exact h
      · exact fun hne => absurd rfl hne
    | _ => cases hs
  | _ => exact absurd hzero id

theorem Tainted.step (ht : s.Tainted) (h : s.Counted) (hs : s.step env a = some s') : s'.Tainted := by
  cases s with
  | looping st w idx =>
    cases a with
    | turn =>
      by_cases hroom : w.nPcs < maxFrames
      · obtain ⟨w₁, hnatives, -, -, -, hturn⟩ := turn_of_lt env st hroom h.2
        have hkept := (WalkCtx.steps_unwindPushed_lead env w₁).kept
        have hmem : 0 ∈ (w₁.unwindPushed env true).1.natives := by
          refine hkept.subset ?_
          rw [hnatives]
          rcases ht with hin | ⟨hpc, -⟩
          · exact List.mem_append_left _ hin
          · exact List.mem_append_right _ (List.mem_singleton.mpr hpc.symm)
        rw [hturn] at hs
        cases hs
        split
        · exact hmem
        · exact .inl hmem
      · have hin := ht.resolve_right fun hlt => hroom hlt.2
        rw [turn_of_le (Nat.not_lt.mp hroom)] at hs
        cases hs
        show 0 ∈ (if idx < maxFrames then w.flag walkerFlagFramePushRefused else w).natives
        split
        · exact hin
        · exact hin
    | _ => cases hs
  | looped st w =>
    have hin : 0 ∈ w.natives := ht
    cases a with
    | dispatch tailCall =>
      cases hs
      unfold dispatch
      split
      · split
        · exact fun _ => hin
        · dsimp only
          split
          · exact hin
          · exact fun _ => hin
      · exact fun _ => hin
    | _ => cases hs
  | inModule st maps =>
    have hin : 0 ∈ (walkLoad st maps).natives := ht
    cases a with
    | module run tailCall =>
      cases hs
      have hnatives := natives_runModule st maps run
      split
      · show 0 ∈ (walkLoad _ _).natives
        rw [hnatives]
        exact hin
      · exact fun hne => absurd rfl hne
    | _ => cases hs
  | resumeStep st maps =>
    have hin : 0 ∈ (walkLoad st maps).natives := ht
    cases a with
    | resumeStep tailCall =>
      cases hs
      have hkept := (steps_resumed env st maps).kept
      split
      · exact .inl (hkept.subset hin)
      · exact fun hne => absurd rfl hne
    | _ => cases hs
  | resumeWalk st maps =>
    cases a with
    | resumeWalk =>
      cases hs
      split
      · next hstopped =>
        have hin := ht.resolve_right fun hlt => by
          rw [hstopped] at hlt
          exact Bool.noConfusion hlt.1
        exact fun _ => hin
      · exact ht.imp_right fun hlt => hlt.2
    | _ => cases hs
  | ended => cases hs

theorem Clean.step (hc : s.Clean) (h : s.Counted) (hzero : ¬s.ReadsZero env) (hs : s.step env a = some s') :
    s'.Clean := by
  obtain ⟨hne, hpc⟩ := hc
  cases s with
  | looping st w idx =>
    cases a with
    | turn =>
      by_cases hroom : w.nPcs < maxFrames
      · obtain ⟨w₁, hnatives, hcursor, hpc₁, hiff, hturn⟩ := turn_of_lt env st hroom h.2
        have hsteps := WalkCtx.steps_unwindPushed_lead env w₁
        have hpc₀ : w.pc ≠ 0 := hpc.resolve_right (Nat.not_le.mpr hroom)
        have hne₁ : ∀ x ∈ w₁.natives, x ≠ 0 := by
          intro x hx
          rw [hnatives] at hx
          rcases List.mem_append.mp hx with hx | hx
          · exact hne x hx
          · exact List.mem_singleton.mp hx ▸ hpc₀
        rw [hturn] at hs
        cases hs
        split
        · next hstop =>
          obtain ⟨hsame, hall⟩ := hsteps.stops hstop
          exact ⟨fun x hx => (hall x hx).elim (hne₁ x) id, .inl (hsame.trans hpc₁ ▸ hpc₀)⟩
        · next hgo =>
          obtain ⟨hsame, hn, hpc'⟩ := hsteps.goes (Bool.eq_false_iff.mpr hgo)
          refine ⟨fun x hx => hne₁ x (hsame ▸ hx), ?_⟩
          by_cases hfull : w.nPcs + 1 < maxFrames
          · exact .inl fun hz => hzero ⟨hfull, hiff.mpr (hpc'.mp hz)⟩
          · refine .inr ?_
            show maxFrames ≤ (w₁.unwindPushed env true).1.nPcs
            rw [hn, hcursor]
            exact Nat.not_lt.mp hfull
      · rw [turn_of_le (Nat.not_lt.mp hroom)] at hs
        cases hs
        split
        · exact ⟨hne, .inr (Nat.not_lt.mp hroom)⟩
        · exact ⟨hne, .inr (Nat.not_lt.mp hroom)⟩
    | _ => cases hs
  | looped st w =>
    cases a with
    | dispatch tailCall =>
      cases hs
      unfold dispatch
      split
      · split
        · exact ⟨hne, hpc⟩
        · dsimp only
          split
          · exact ⟨hne, hpc⟩
          · exact ⟨hne, hpc⟩
      · exact ⟨hne, hpc⟩
    | _ => cases hs
  | inModule st maps =>
    cases a with
    | module run tailCall =>
      cases hs
      have hnatives := natives_runModule st maps run
      have hle : st.nPcs ≤ (runModule st maps run).1.nPcs := le_pushPairs (maps.record, st.nPcs) run.pairs
      have hclean : (∀ x ∈ (walkLoad (runModule st maps run).1 (runModule st maps run).2).natives, x ≠ 0) ∧
          (st.pc ≠ 0 ∨ maxFrames ≤ (runModule st maps run).1.nPcs) := by
        rw [hnatives]
        exact ⟨hne, hpc.imp_right fun hfull => hfull.trans hle⟩
      split
      · exact hclean
      · exact hclean
    | _ => cases hs
  | resumeStep st maps =>
    cases a with
    | resumeStep tailCall =>
      cases hs
      have hsteps := steps_resumed env st maps
      have hclean : (resumeWalk (runResumeStep env st maps).1 (runResumeStep env st maps).2).Clean := by
        unfold runResumeStep
        dsimp only
        generalize (walkLoad st (maps.count [.resumed])).unwindFrame env false = r at hsteps
        obtain ⟨w₁, stops⟩ := r
        cases stops with
        | true =>
          obtain ⟨hsame, hall⟩ := hsteps.stops rfl
          refine ⟨fun x hx => (hall x hx).elim (hne x) id, ?_⟩
          exact hpc.imp (fun hpc₀ => ne_of_eq_of_ne hsame hpc₀) fun hfull => le_trans hfull hsteps.le
        | false =>
          obtain ⟨hsame, hn, hpc'⟩ := hsteps.goes rfl
          refine ⟨fun x hx => hne x (hsame ▸ hx), ?_⟩
          by_cases hfull : st.nPcs < maxFrames
          · exact .inl fun hz => hzero ⟨hfull, hpc'.mp hz⟩
          · exact .inr (le_trans (Nat.not_lt.mp hfull) hsteps.le)
      split
      · exact hclean
      · exact hclean
    | _ => cases hs
  | resumeWalk st maps =>
    cases a with
    | resumeWalk =>
      cases hs
      split
      · exact ⟨hne, hpc⟩
      · exact ⟨hne, hpc⟩
    | _ => cases hs
  | ended => cases hs

end Steps

/-! ## Runs -/

theorem counted_begin (maps : WalkMaps) (pid tid : UInt32) (pc fp sp : UInt64) :
    (begin maps pid tid pc fp sp).Counted := ⟨rfl, le_refl _⟩

theorem clean_begin (maps : WalkMaps) (pid tid : UInt32) {pc : UInt64} (fp sp : UInt64) (hpc : pc ≠ 0) :
    (begin maps pid tid pc fp sp).Clean :=
  ⟨fun _ hx => absurd hx List.not_mem_nil, .inl hpc⟩

/-- A walk from an address that is not zero emits a native frame at zero if and only if, somewhere
on it, the step along the frame-pointer chain reads a zero while there is room for a frame. -/
theorem frames_nonzero_iff (env : WalkEnv) (maps : WalkMaps) (pid tid : UInt32) {pc : UInt64} (fp sp : UInt64)
    (hpc : pc ≠ 0) {as : List WalkAction} {st : WalkPersist} {maps' : WalkMaps} {n : Nat}
    (h : Run (fun s a s' => s.step env a = some s') (begin maps pid tid pc fp sp) as (.ended st maps' (some n))) :
    (∀ x ∈ maps'.record.natives n, x ≠ 0) ↔
      Run (fun s a s' => ¬s.ReadsZero env ∧ s.step env a = some s') (begin maps pid tid pc fp sp) as
        (.ended st maps' (some n)) := by
  have hcounted : ∀ {as s}, Run (fun s a s' => s.step env a = some s') (begin maps pid tid pc fp sp) as s → s.Counted :=
    fun hrun => Run.invariant (I := fun _ s => s.Counted) (counted_begin ..) (fun _ _ _ _ _ hs hstep => hs.step hstep) hrun
  have hnatives : maps'.record.natives n = (walkLoad st maps').natives := by
    rw [hcounted h n rfl, SampleRecord.natives_min]
    rfl
  rw [hnatives]
  constructor
  · intro hne
    have hinv : ∀ {as s}, Run (fun s a s' => s.step env a = some s') (begin maps pid tid pc fp sp) as s →
        Run (fun s a s' => ¬s.ReadsZero env ∧ s.step env a = some s') (begin maps pid tid pc fp sp) as s ∨
          s.Tainted := by
      intro as s hrun
      refine Run.invariant (I := fun as s => Run (fun s a s' => ¬s.ReadsZero env ∧ s.step env a = some s')
        (begin maps pid tid pc fp sp) as s ∨ s.Tainted) (.inl .nil) ?_ hrun
      rintro as s a s' hrun (hguarded | htainted) hstep
      · by_cases hzero : s.ReadsZero env
        · exact .inr (tainted_of_readsZero (hcounted hrun) hzero hstep)
        · exact .inl (hguarded.snoc ⟨hzero, hstep⟩)
      · exact .inr (htainted.step (hcounted hrun) hstep)
    refine (hinv h).resolve_right fun htainted => ?_
    exact hne 0 (htainted (Option.some_ne_none n)) rfl
  · intro hguarded
    have hclean := Run.invariant (I := fun _ s => s.Counted ∧ s.Clean)
      ⟨counted_begin .., clean_begin maps pid tid fp sp hpc⟩
      (fun _ _ _ _ _ hs hstep => ⟨hs.1.step hstep.2, hs.2.step hs.1 hstep.1 hstep.2⟩) hguarded
    exact hclean.2.1

def emitted : Walk → Option Nat
  | .ended _ _ emitted => emitted
  | _ => none

/-- A frame that was called from `0x5000`, at the end of the chain. -/
def oneCaller : WalkEnv where
  memory := fun addr => if addr = 0x100 then some 0 else if addr = 0x108 then some 0x5000 else none
  tables := {}
  handoffRanges := ∅
  interpEnabled := false

def freshMaps : WalkMaps where
  record := { walkerFlags := 0, pcs := Vector.replicate _ 0, tags := Vector.replicate _ 0 }

theorem frames_nonzero_iff_oneCaller : ∃ st maps', (0x4000 : UInt64) ≠ 0 ∧
      Run (fun s a s' => s.step oneCaller a = some s') (begin freshMaps 7 7 0x4000 0x100 0xf0)
        [.turn, .turn, .dispatch false] (.ended st maps' (some 2)) ∧
      ((∀ x ∈ maps'.record.natives 2, x ≠ 0) ↔ Run (fun s a s' => ¬s.ReadsZero oneCaller ∧ s.step oneCaller a = some s')
          (begin freshMaps 7 7 0x4000 0x100 0xf0) [.turn, .turn, .dispatch false] (.ended st maps' (some 2))) := by
  obtain ⟨s, hrun, hs⟩ := @exists_run _ _ (fun s a => s.step oneCaller a)
    (begin freshMaps 7 7 0x4000 0x100 0xf0) [.turn, .turn, .dispatch false]
    (fun s => s.emitted == some 2) (by decide +kernel)
  cases s with
  | ended st maps' emitted =>
    obtain rfl : emitted = some 2 := beq_iff_eq.mp hs
    exact ⟨st, maps', by decide, hrun, frames_nonzero_iff oneCaller freshMaps 7 7 0x100 0xf0 (by decide) hrun⟩
  | _ => cases hs

/-- The same frame, with a zero where the return address was, and a frame pointer that leads on. -/
def clobbered : WalkEnv :=
  { oneCaller with
    memory := fun addr => if addr = 0x100 then some 0x200 else if addr = 0x108 then some 0 else none }

theorem not_frames_nonzero : ¬∀ (env : WalkEnv) (maps : WalkMaps) (pid tid : UInt32) (pc fp sp : UInt64), pc ≠ 0 →
      ∀ (as : List WalkAction) (st : WalkPersist) (maps' : WalkMaps) (n : Nat),
        Run (fun s a s' => s.step env a = some s') (begin maps pid tid pc fp sp) as (.ended st maps' (some n)) →
          ∀ x ∈ maps'.record.natives n, x ≠ 0 := by
  intro h
  obtain ⟨s, hrun, hs⟩ := @exists_run _ _ (fun s a => s.step clobbered a)
    (begin freshMaps 7 7 0x4000 0x100 0xf0) [.turn, .turn, .dispatch false]
    (fun s => s.emitted == some 2 && decide (0 ∈ s.ctx.maps.record.natives 2)) (by decide +kernel)
  cases s with
  | ended st maps' emitted =>
    obtain ⟨hemitted, hzero⟩ := Bool.and_eq_true_iff.mp hs
    obtain rfl : emitted = some 2 := beq_iff_eq.mp hemitted
    exact h clobbered freshMaps 7 7 0x4000 0x100 0xf0 (by decide) _ st maps' 2 hrun 0 (of_decide_eq_true hzero) rfl
  | _ => cases hs

end Walk

end PerfAgent.Bpf
