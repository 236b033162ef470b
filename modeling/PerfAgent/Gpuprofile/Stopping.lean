import PerfAgent.Gpuprofile.Profiler

/-!
# Stopping the profiler

`Stop`, `Collect` and `Close` from any goroutines, with the drain loop and the consumer.  The first call that
gets to `stop` cancels the loop and waits for it to end.  Any other finds the flag set and goes on at once, so
it is through before the loop is, unless it has come when the loop had ended.

A step is what is done under the lock, or one channel operation.
-/

namespace PerfAgent.Gpuprofile

open Gpu Gpu.Execlog List Function Option

inductive StopCall where
  | stop
  | collect
  | close
deriving DecidableEq

/-- Where a call is: in `stop`, past it, or back at its caller. -/
inductive CallPc where
  | idle
  | cancelling
  | waiting
  | past
  | returned
deriving DecidableEq

/-- Where `drainLoop` is.  A drain has taken its snapshot before it adds to the profile. -/
inductive LoopPc where
  | select
  | adding (d : DrainInput)
  | awaitingConsumer
  | addingLast (d : DrainInput)
  | returning
  /-- `done` is closed. -/
  | finished

instance (l : LoopPc) : Decidable (l = .finished) :=
  match l with
  | .select | .adding _ | .awaitingConsumer | .addingLast _ | .returning => .isFalse nofun
  | .finished => .isTrue rfl

def LoopPc.pending : LoopPc → List DrainInput
  | .adding d => [d]
  | .addingLast d => [d]
  | _ => []

structure StopSystem where
  profiler : Profiler
  stopped : Bool := false
  cancelled : Bool := false
  consumerDone : Bool := false
  loop : LoopPc := .select
  calls : ℕ → CallPc := fun _ => .idle
  /-- The snapshots that drains have taken. -/
  drains : List DrainInput := []
  /-- What `Collect` has written. -/
  written : ℕ → Option (List Pprof.Sample) := fun _ => none

inductive StopAction where
  | consumerStops
  | drain (d : DrainInput)
  | add
  | seeCancelled
  | drainLast (d : DrainInput)
  | closeDone
  | enter (c : ℕ)
  | cancel (c : ℕ)
  | wake (c : ℕ)
  | finish (c : ℕ)

namespace StopSystem

variable (cfg : Config) (digest : List Pprof.Sample → Digest) (kind : ℕ → StopCall) (s : StopSystem)

def setCall (c : ℕ) (pc : CallPc) : StopSystem := { s with calls := update s.calls c pc }

/-- What a call does when it is past `stop`. -/
def finish (c : ℕ) : StopSystem :=
  match kind c with
  | .stop => s.setCall c .returned
  | .collect =>
    let (profiler, written, _) := s.profiler.collect digest
    { s.setCall c .returned with profiler := profiler, written := update s.written c written }
  | .close => { s.setCall c .returned with profiler := s.profiler.close }

def step : StopAction → Option StopSystem
  | .consumerStops => some { s with consumerDone := true }
  | .drain d =>
    match s.loop with
    | .select => some { s with loop := .adding d, drains := s.drains ++ [d] }
    | _ => none
  | .add =>
    match s.loop with
    | .adding d => (s.profiler.drain cfg d).map fun p => { s with profiler := p, loop := .select }
    | .addingLast d => (s.profiler.drain cfg d).map fun p => { s with profiler := p, loop := .returning }
    | _ => none
  | .seeCancelled =>
    match s.loop with
    | .select => if s.cancelled then some { s with loop := .awaitingConsumer } else none
    | _ => none
  | .drainLast d =>
    match s.loop with
    | .awaitingConsumer =>
      if s.consumerDone then some { s with loop := .addingLast d, drains := s.drains ++ [d] } else none
    | _ => none
  | .closeDone =>
    match s.loop with
    | .returning => some { s with loop := .finished }
    | _ => none
  | .enter c =>
    if s.calls c = .idle then some { s.setCall c (if s.stopped then .past else .cancelling) with stopped := true }
    else none
  | .cancel c => if s.calls c = .cancelling then some { s.setCall c .waiting with cancelled := true } else none
  | .wake c =>
    match s.loop with
    | .finished => if s.calls c = .waiting then some (s.setCall c .past) else none
    | _ => none
  | .finish c => if s.calls c = .past then some (s.finish digest kind c) else none

/-- Every call that is back has left nothing to be done, and what it has written has all drains in it. -/
structure Complete (p₀ : Profiler) : Prop where
  consumerDone : ∀ c, s.calls c = .returned → s.consumerDone
  finished : ∀ c, s.calls c = .returned → s.loop = .finished
  written : ∀ c samples, s.written c = some samples →
    (s.drains.foldlM (Profiler.drain cfg) p₀).map (fun p => p.builder.sample) = some samples

def Late : StopAction → Prop
  | .enter _ => s.stopped = true → s.loop = .finished
  | _ => True

instance (a : StopAction) : Decidable (s.Late a) :=
  match a with
  | .enter _ => inferInstanceAs (Decidable (_ → _))
  | .consumerStops | .drain _ | .add | .seeCancelled | .drainLast _ | .closeDone | .cancel _ | .wake _ | .finish _ =>
    .isTrue trivial

end StopSystem

/-! ## The profile without the log -/

def Profiler.profile (p : Profiler) : Pprof.ProfileBuilder × PCLabelBudget := (p.builder, p.pcLabels)

theorem profile_addRow (p : Profiler) (w : Writer) (row : Row) : (p.addRow w row).profile = p.profile := by
  unfold Profiler.addRow
  dsimp only
  cases (w.add row).err with
  | some err => rfl
  | none => rfl

theorem profile_logRow (p : Profiler) (w : Writer) (sample : Nat) (execution : UInt64) (corr : CorrelationID)
    (value : UInt64) : (p.logRow w sample execution corr value).profile = p.profile := by
  unfold Profiler.logRow
  split
  · rfl
  · split
    · split
      · split
        · rfl
        · exact profile_addRow ..
      · rfl
    · exact profile_addRow ..

section

variable {cfg : Config} {snap : Snapshot} {base : UInt64}

variable (cfg snap base) in
theorem profile_drainSample (p : Profiler) (s : Pprof.ProfileSample × Nat) : (p.drainSample cfg snap base s).profile =
      ((p.builder.addSample cfg.builder { s.1 with aggregated := false }).1, p.pcLabels) := by
  unfold Profiler.drainSample
  cases p.execLog with
  | none => rfl
  | some w => exact profile_logRow ..

theorem profile_foldl_drainSample (ss : List (Pprof.ProfileSample × Nat)) (p : Profiler) :
    (ss.foldl (Profiler.drainSample cfg snap base) p).profile =
      (ss.foldl (fun b s => (b.addSample cfg.builder { s.1 with aggregated := false }).1) p.builder, p.pcLabels) := by
  induction ss generalizing p with
  | nil => rfl
  | cons s ss ih =>
    have hs := profile_drainSample cfg snap base p s
    have hbuilder : (p.drainSample cfg snap base s).builder = _ := congrArg Prod.fst hs
    have hlabels : (p.drainSample cfg snap base s).pcLabels = _ := congrArg Prod.snd hs
    rw [foldl_cons, ih, foldl_cons, hbuilder, hlabels]

variable (cfg) in
def drainProfile (b : Pprof.ProfileBuilder × PCLabelBudget) (d : DrainInput) :
    Option (Pprof.ProfileBuilder × PCLabelBudget) :=
  (projectExecutionsWith (!cfg.perExecutionSamples) d.answers b.2 d.snap).map fun projected =>
    (projected.1.foldl (fun b s => (b.addSample cfg.builder
      (if cfg.perExecutionSamples then s.1 else { s.1 with aggregated := false })).1) b.1, projected.2)

variable (cfg) in
theorem profile_drain (p : Profiler) (d : DrainInput) :
    (p.drain cfg d).map Profiler.profile = drainProfile cfg p.profile d := by
  unfold Profiler.drain drainProfile
  rw [Option.map_map]
  refine congrArg (fun f => Option.map f _) ?_
  funext projected
  show Profiler.profile (if cfg.perExecutionSamples then _ else _) = _
  cases hcfg : cfg.perExecutionSamples with
  | true => rfl
  | false => exact profile_foldl_drainSample _ _

theorem profile_foldlM_drain (ds : List DrainInput) (p : Profiler) :
    (ds.foldlM (Profiler.drain cfg) p).map Profiler.profile = ds.foldlM (drainProfile cfg) p.profile := by
  induction ds generalizing p with
  | nil => rfl
  | cons d ds ih =>
    rw [foldlM_cons, foldlM_cons, ← profile_drain]
    cases p.drain cfg d with
    | none => rfl
    | some p' => exact ih p'

end

theorem profile_collect (digest : List Pprof.Sample → Digest) (p : Profiler) :
    (p.collect digest).1.profile = p.profile ∧
      ∀ samples, (p.collect digest).2.1 = some samples → samples = p.builder.sample := by
  unfold Profiler.collect
  split
  · split
    · exact ⟨rfl, nofun⟩
    · exact ⟨rfl, nofun⟩
  · split
    · split
      · exact ⟨rfl, fun samples h => (Option.some.inj h).symm⟩
      · exact ⟨rfl, fun samples h => (Option.some.inj h).symm⟩
    · exact ⟨rfl, fun samples h => (Option.some.inj h).symm⟩

/-! ## Every interleaving -/

namespace StopSystem

variable {cfg : Config} {digest : List Pprof.Sample → Digest} {kind : ℕ → StopCall} {p₀ : Profiler} {s s' : StopSystem}

def LoopPc.pastConsumer : LoopPc → Bool
  | .addingLast _ | .returning | .finished => true
  | _ => false

variable (cfg p₀ s) in
structure Inv : Prop where
  consumerDone : LoopPc.pastConsumer s.loop → s.consumerDone
  past : ∀ c, s.calls c = .past ∨ s.calls c = .returned → s.loop = .finished
  profile : ∃ ds, s.drains = ds ++ s.loop.pending ∧ ds.foldlM (drainProfile cfg) p₀.profile = some s.profiler.profile
  written : ∀ c samples, s.written c = some samples → s.loop = .finished ∧ samples = s.profiler.builder.sample

theorem Inv.complete (h : s.Inv cfg p₀) : s.Complete cfg p₀ where
  consumerDone := by
    intro c hc
    refine h.consumerDone ?_
    rw [h.past c (.inr hc)]
    rfl
  finished := fun c hc => h.past c (.inr hc)
  written := by
    intro c samples hc
    obtain ⟨hfinished, rfl⟩ := h.written c samples hc
    obtain ⟨ds, hds, hprofile⟩ := h.profile
    rw [hfinished] at hds
    rw [hds, show LoopPc.finished.pending = [] from rfl, append_nil]
    rw [← profile_foldlM_drain] at hprofile
    obtain ⟨p, hp, heq⟩ := map_eq_some_iff.mp hprofile
    rw [hp, map_some]
    exact congrArg (fun b => some b.1.sample) heq

theorem inv_initial (p₀ : Profiler) : Inv cfg p₀ { profiler := p₀ } where
  consumerDone := nofun
  past := fun c hc => by
    rcases hc with hc | hc
    · cases hc
    · cases hc
  profile := ⟨[], rfl, rfl⟩
  written := nofun

theorem Inv.enter (h : s.Inv cfg p₀) {c : ℕ} (hlate : s.stopped = true → s.loop = .finished) :
    Inv cfg p₀ { s.setCall c (if s.stopped then .past else .cancelling) with stopped := true } where
  consumerDone := h.consumerDone
  past := by
    intro c' hc'
    change update s.calls c _ c' = .past ∨ update s.calls c _ c' = .returned at hc'
    rw [update_apply] at hc'
    by_cases hc : c' = c
    · cases hstopped : s.stopped with
      | false => simp [hc, hstopped] at hc'
      | true => exact hlate hstopped
    · rw [if_neg hc] at hc'
      exact h.past c' hc'
  profile := h.profile
  written := h.written

theorem Inv.setCall (h : s.Inv cfg p₀) {c : ℕ} {pc : CallPc}
    (hpc : pc = .past ∨ pc = .returned → s.loop = .finished) : (s.setCall c pc).Inv cfg p₀ where
  consumerDone := h.consumerDone
  past := by
    intro c' hc'
    change update s.calls c pc c' = .past ∨ update s.calls c pc c' = .returned at hc'
    rw [update_apply] at hc'
    by_cases hc : c' = c
    · rw [if_pos hc] at hc'
      exact hpc hc'
    · rw [if_neg hc] at hc'
      exact h.past c' hc'
  profile := h.profile
  written := h.written

theorem Inv.finish (h : s.Inv cfg p₀) {c : ℕ} (hc : s.calls c = .past) : (s.finish digest kind c).Inv cfg p₀ := by
  have hfinished := h.past c (.inl hc)
  have hcall : (s.setCall c .returned).Inv cfg p₀ := h.setCall fun _ => hfinished
  unfold StopSystem.finish
  cases kind c with
  | stop => exact hcall
  | collect =>
    obtain ⟨hprofile, hwritten⟩ := profile_collect digest s.profiler
    have hbuilder : (s.profiler.collect digest).1.builder = s.profiler.builder := congrArg Prod.fst hprofile
    refine ⟨hcall.consumerDone, hcall.past, ?_, ?_⟩
    · obtain ⟨ds, hds, hfold⟩ := h.profile
      exact ⟨ds, hds, hfold.trans (congrArg some hprofile.symm)⟩
    · intro c' samples hsamples
      refine ⟨hfinished, ?_⟩
      show samples = (s.profiler.collect digest).1.builder.sample
      change update s.written c (s.profiler.collect digest).2.1 c' = some samples at hsamples
      rw [update_apply] at hsamples
      rw [hbuilder]
      split at hsamples
      · exact hwritten samples hsamples
      · exact (h.written c' samples hsamples).2
  | close => exact ⟨hcall.consumerDone, hcall.past, h.profile, h.written⟩

theorem Inv.loop (h : s.Inv cfg p₀) (hloop : s.loop ≠ .finished) {profiler : Profiler} {loop : LoopPc}
    {drains : List DrainInput} (hconsumer : LoopPc.pastConsumer loop → s.consumerDone)
    (hprofile : ∃ ds, drains = ds ++ loop.pending ∧ ds.foldlM (drainProfile cfg) p₀.profile = some profiler.profile) :
    Inv cfg p₀ { s with profiler := profiler, loop := loop, drains := drains } where
  consumerDone := hconsumer
  past := fun c hc => absurd (h.past c hc) hloop
  profile := hprofile
  written := fun c samples hc => absurd (h.written c samples hc).1 hloop

theorem Inv.profile_add (h : s.Inv cfg p₀) {d : DrainInput} (hpending : s.loop.pending = [d]) {p : Profiler}
    (hdrain : s.profiler.drain cfg d = some p) :
    ∃ ds, s.drains = ds ∧ ds.foldlM (drainProfile cfg) p₀.profile = some p.profile := by
  obtain ⟨ds, hds, hfold⟩ := h.profile
  refine ⟨ds ++ [d], hds.trans (congrArg _ hpending), ?_⟩
  have hstep := profile_drain cfg s.profiler d
  rw [hdrain] at hstep
  rw [foldlM_append, hfold]
  show [d].foldlM (drainProfile cfg) s.profiler.profile = _
  rw [foldlM_cons, ← hstep]
  rfl

theorem Inv.step (h : s.Inv cfg p₀) {a : StopAction} (ha : s.Late a) (hs : s.step cfg digest kind a = some s') :
    s'.Inv cfg p₀ := by
  cases a with
  | consumerStops =>
    cases hs
    exact ⟨fun _ => rfl, h.past, h.profile, h.written⟩
  | drain d =>
    cases hloop : s.loop <;> simp only [StopSystem.step, hloop, reduceCtorEq] at hs
    cases hs
    obtain ⟨ds, hds, hfold⟩ := h.profile
    refine h.loop (by simp [hloop]) nofun ⟨s.drains, rfl, ?_⟩
    rw [hds, hloop]
    exact (congrArg (fun l => List.foldlM (drainProfile cfg) p₀.profile l) (append_nil ds)).trans hfold
  | add =>
    cases hloop : s.loop <;> simp only [StopSystem.step, hloop, reduceCtorEq] at hs
    · obtain ⟨p, hp, rfl⟩ := map_eq_some_iff.mp hs
      obtain ⟨ds, hds, hfold⟩ := h.profile_add (by rw [hloop]; rfl) hp
      exact h.loop (by simp [hloop]) nofun ⟨ds, hds.trans (append_nil ds).symm, hfold⟩
    · obtain ⟨p, hp, rfl⟩ := map_eq_some_iff.mp hs
      obtain ⟨ds, hds, hfold⟩ := h.profile_add (by rw [hloop]; rfl) hp
      refine h.loop (by simp [hloop]) (fun _ => h.consumerDone (by rw [hloop]; rfl))
        ⟨ds, hds.trans (append_nil ds).symm, hfold⟩
  | seeCancelled =>
    cases hloop : s.loop <;> simp only [StopSystem.step, hloop, reduceCtorEq] at hs
    obtain ⟨-, hs⟩ := ite_none_right_eq_some.mp hs
    cases hs
    have hprofile := h.profile
    rw [hloop] at hprofile
    exact h.loop (by simp [hloop]) nofun hprofile
  | drainLast d =>
    cases hloop : s.loop <;> simp only [StopSystem.step, hloop, reduceCtorEq] at hs
    obtain ⟨hdone, hs⟩ := ite_none_right_eq_some.mp hs
    cases hs
    obtain ⟨ds, hds, hfold⟩ := h.profile
    refine h.loop (by simp [hloop]) (fun _ => hdone) ⟨s.drains, rfl, ?_⟩
    rw [hds, hloop]
    exact (congrArg (fun l => List.foldlM (drainProfile cfg) p₀.profile l) (append_nil ds)).trans hfold
  | closeDone =>
    cases hloop : s.loop <;> simp only [StopSystem.step, hloop, reduceCtorEq] at hs
    cases hs
    have hprofile := h.profile
    rw [hloop] at hprofile
    exact h.loop (by simp [hloop]) (fun _ => h.consumerDone (by rw [hloop]; rfl)) hprofile
  | enter c =>
    obtain ⟨-, hs⟩ := ite_none_right_eq_some.mp hs
    cases hs
    exact h.enter ha
  | cancel c =>
    obtain ⟨-, hs⟩ := ite_none_right_eq_some.mp hs
    cases hs
    have hcall : (s.setCall c .waiting).Inv cfg p₀ := h.setCall (by simp)
    exact ⟨hcall.consumerDone, hcall.past, hcall.profile, hcall.written⟩
  | wake c =>
    cases hloop : s.loop <;> simp only [StopSystem.step, hloop, reduceCtorEq] at hs
    obtain ⟨-, hs⟩ := ite_none_right_eq_some.mp hs
    cases hs
    exact h.setCall fun _ => hloop
  | finish c =>
    obtain ⟨hc, hs⟩ := ite_none_right_eq_some.mp hs
    cases hs
    exact h.finish hc

end StopSystem

open StopSystem in
/-- In every interleaving in which no call finds the flag set before the loop has ended, a call that is back has left
nothing to be done. -/
theorem stop_complete (cfg : Config) (digest : List Pprof.Sample → Digest) (kind : ℕ → StopCall) (p₀ : Profiler)
    (as : List StopAction) (s : StopSystem)
    (h : Run (fun s a s' => s.Late a ∧ s.step cfg digest kind a = some s') { profiler := p₀ } as s) :
    s.Complete cfg p₀ := by
  have hinv := h.invariant (I := fun _ s => s.Inv cfg p₀) (inv_initial p₀) (fun _ _ _ _ _ hs ha => hs.step ha.1 ha.2)
  exact hinv.complete

/-! A profile of two drains, each of one execution of 10 nanoseconds. -/

def tenNs : DrainInput where
  snap := snapshotOf [{ exec := { endNs := 10 } }]
  answers := fun _ _ => { status := .noModule }

def oneSample : Config := { builder := { resolver := none, sum64 := fun _ => 0 } }

def noDigest (_ : List Pprof.Sample) : Digest := ⟨List.replicate 32 0, length_replicate⟩

/-- Call 0 is `Stop`, the others are `Collect`. -/
def stopAndCollect (c : ℕ) : StopCall := if c = 0 then .stop else .collect

def noBudget : Profiler := { pcLabels := { ceiling := 0 } }

def collectAlone : List StopAction :=
  [.drain tenNs, .add, .enter 1, .cancel 1, .seeCancelled, .consumerStops, .drainLast tenNs, .add, .closeDone, .wake 1,
    .finish 1]

/-- `Collect` is the only call. -/
theorem stop_complete_collectAlone : ∃ s : StopSystem,
    Run (fun (s : StopSystem) a s' => s.Late a ∧ s.step oneSample noDigest stopAndCollect a = some s') { profiler := noBudget }
      collectAlone s ∧
    s.calls 1 = .returned ∧ (s.written 1).map (List.map Pprof.Sample.value) = some [[20]] ∧
    s.Complete oneSample noBudget := by
  obtain ⟨s, hrun, hs⟩ := exists_guarded_run (StopSystem.step oneSample noDigest stopAndCollect) StopSystem.Late
    { profiler := noBudget } collectAlone
    (fun s => decide (s.calls 1 = .returned ∧ (s.written 1).map (List.map Pprof.Sample.value) = some [[20]]))
    (by decide +kernel)
  obtain ⟨hreturned, hwritten⟩ := of_decide_eq_true hs
  exact ⟨s, hrun, hreturned, hwritten, stop_complete oneSample noDigest stopAndCollect noBudget _ s hrun⟩

/-- `Collect` comes while `Stop` is at work. -/
def collectOvertakes : List StopAction := [.drain tenNs, .add, .enter 0, .enter 1, .finish 1]

def thenStop : List StopAction :=
  [.cancel 0, .seeCancelled, .consumerStops, .drainLast tenNs, .add, .closeDone, .wake 0, .finish 0]

/-- `Collect` is back when the consumer has not stopped, and the profile that it has written does not have the last
drain. -/
theorem not_complete_collectOvertakes :
    (∃ s : StopSystem, Run (fun (s : StopSystem) a s' => s.step oneSample noDigest stopAndCollect a = some s') { profiler := noBudget }
      collectOvertakes s ∧ s.calls 1 = .returned ∧ s.consumerDone = false ∧ ¬s.Complete oneSample noBudget) ∧
    ∃ s : StopSystem, Run (fun (s : StopSystem) a s' => s.step oneSample noDigest stopAndCollect a = some s') { profiler := noBudget }
      (collectOvertakes ++ thenStop) s ∧ (s.written 1).map (List.map Pprof.Sample.value) = some [[10]] ∧
      s.profiler.builder.sample.map Pprof.Sample.value = [[20]] := by
  constructor
  · obtain ⟨s, hrun, hs⟩ := @exists_run _ _ (StopSystem.step oneSample noDigest stopAndCollect)
      { profiler := noBudget } collectOvertakes (fun s => decide (s.calls 1 = .returned ∧ s.consumerDone = false))
      (by decide +kernel)
    obtain ⟨hreturned, hdone⟩ := of_decide_eq_true hs
    refine ⟨s, hrun, hreturned, hdone, fun h => ?_⟩
    exact absurd (h.consumerDone 1 hreturned) (by simp [hdone])
  · obtain ⟨s, hrun, hs⟩ := @exists_run _ _ (StopSystem.step oneSample noDigest stopAndCollect)
      { profiler := noBudget } (collectOvertakes ++ thenStop)
      (fun s => decide ((s.written 1).map (List.map Pprof.Sample.value) = some [[10]] ∧
        s.profiler.builder.sample.map Pprof.Sample.value = [[20]]))
      (by decide +kernel)
    exact ⟨s, hrun, of_decide_eq_true hs⟩

end PerfAgent.Gpuprofile
