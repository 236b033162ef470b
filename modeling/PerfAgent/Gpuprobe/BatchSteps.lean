import PerfAgent.Gpuprobe.Batches

/-!
# What a record does to the consumer

The two functions that decide about launches and stacks have many ways through them.  They are
described here once, by what they do to the three things that the results about the consumer
are about: the events it was given (`records`), the stacks that wait (`pending`) and the account
of the stacks (`account`).  Everything else in a batch leaves the last two alone.
-/

namespace PerfAgent.Gpuprobe

open Gpu

namespace BatchConsumer

variable {cfg : ConsumerConfig}

/-- Everything the consumer was given: delivered, held for a name, or held for a stack. -/
def records (c : BatchConsumer) : Multiset EventRecord :=
  c.toOutlet.records + c.deferred.held.map fun d => launchRecord d.launch

def account (c : BatchConsumer) : StackAccount := c.stackStats.toStackAccount

@[simp] theorem records_emitLaunchLocked (c : BatchConsumer) (ev : GPUKernelLaunch) (kernelID : Nat) :
    (c.emitLaunchLocked cfg ev kernelID).records = c.records + {launchRecord ev} := by
  simp only [records, emitLaunchLocked, Outlet.emitLaunchLocked, Outlet.records_emitLocked, KernelEvent.record]
  abel

theorem records_deferred (c c' : BatchConsumer) {out : Multiset DeferredLaunch}
    (new : Multiset DeferredLaunch) (ho : c'.toOutlet = c.toOutlet)
    (hd : out + c'.deferred.held = c.deferred.held + new) :
    c'.records + out.map (fun d => launchRecord d.launch) = c.records + new.map (fun d => launchRecord d.launch) := by
  have hmap := congrArg (Multiset.map fun d => launchRecord d.launch) hd
  rw [Multiset.map_add, Multiset.map_add] at hmap
  calc c'.records + out.map (fun d => launchRecord d.launch)
      = c.toOutlet.records + (out.map (fun d => launchRecord d.launch) +
          c'.deferred.held.map fun d => launchRecord d.launch) := by
        rw [records, ho]
        abel
    _ = c.records + new.map (fun d => launchRecord d.launch) := by
        rw [hmap, records]
        abel

/-! ## Launches -/

/-- What a launch comes to: it is given to the consumer as it is, or with the stack that was
parked for it. -/
inductive LaunchOutcome (ev : GPUKernelLaunch) (c c' : BatchConsumer) : Prop
  | alone (hrecords : c'.records = c.records + {launchRecord ev})
      (hpending : c'.pending = c.pending) (haccount : c'.account = c.account)
  | joined {st : ResolvedStack}
      (hrecords : c'.records = c.records + {launchRecord (attachStack ev st.frames st.period)})
      (hpending : c.pending.take ev.correlation = (some st, c'.pending))
      (haccount : c'.account = { c.account with stacksAttached := c.account.stacksAttached + 1 })

variable (cfg) in
theorem admitLaunchLocked_outcome (c : BatchConsumer) (ev : GPUKernelLaunch) (kernelID : Nat) :
    LaunchOutcome ev c (c.admitLaunchLocked cfg ev kernelID) := by
  unfold admitLaunchLocked
  split_ifs
  · exact .alone (records_emitLaunchLocked c ev kernelID) rfl rfl
  · split
    · next st pending htake =>
        exact .joined (records_emitLaunchLocked _ _ _) htake rfl
    · have h := records_deferred c
        { c with deferred := (c.deferred.push { launch := ev, kernelID := kernelID }).2 } _ rfl
        (c.deferred.held_push { launch := ev, kernelID := kernelID })
      rw [Multiset.map_singleton] at h
      dsimp only
      split
      · next released hr =>
          refine .alone ?_ rfl rfl
          rw [records_emitLaunchLocked]
          simpa [hr] using h
      · next hr =>
          refine .alone ?_ rfl rfl
          simpa [hr] using h

variable (cfg) in
theorem releaseDeferredLocked_spec (c : BatchConsumer) : (c.releaseDeferredLocked cfg).records = c.records ∧
      (c.releaseDeferredLocked cfg).deferred.held = 0 ∧
      (c.releaseDeferredLocked cfg).pending = c.pending ∧
      (c.releaseDeferredLocked cfg).account = c.account := by
  unfold releaseDeferredLocked
  refine ⟨?_, ?_, ?_, ?_⟩
  · rw [foldl_measure fun c (d : DeferredLaunch) => records_emitLaunchLocked c d.launch d.kernelID,
      ← Multiset.map_coe fun d : DeferredLaunch => launchRecord d.launch]
    refine (records_deferred c _ 0 ?_ ?_).trans (add_zero _)
    · rfl
    · rw [HoldQueue.held_drain]
      rfl
  · refine (congrArg HoldQueue.held (foldl_keeps deferred ?_ _ _)).trans c.deferred.held_drain
    exact fun c d => rfl
  · apply foldl_keeps pending
    exact fun c d => rfl
  · apply foldl_keeps account
    exact fun c d => rfl

/-! ## Sampled launches -/

def shownFrames (cfg : ConsumerConfig) (frames : List Frame) : List Frame :=
  if (cfg.collapse frames).2 > 0 then (cfg.collapse frames).1 else frames

variable (cfg) in
theorem collapseFrames_spec (st : StackStats) (frames : List Frame) :
    (collapseFrames cfg st frames).1 = shownFrames cfg frames ∧
      (collapseFrames cfg st frames).2.toStackAccount = st.toStackAccount := by
  unfold collapseFrames shownFrames
  dsimp only
  split_ifs
  · exact ⟨rfl, rfl⟩
  · exact ⟨rfl, rfl⟩

/-- The frames are the stack of this id, resolved for this process. -/
def Captured (cfg : ConsumerConfig) (env : StackEnv) (pid : Nat) (stackID : Int) (frames : List Frame) : Prop :=
  0 ≤ stackID ∧ ∃ st st' raw, resolveStackLocked env st pid stackID.toNat = (st', some raw) ∧
    frames = shownFrames cfg raw

variable (cfg) in
theorem attachFrames_cases (c : BatchConsumer) (pid : Nat) (frames : List Frame) (sl : LaunchSampled) :
    (∃ others ev, ev.correlation = correlationID cfg pid sl.correlation ∧ c.records = others + {launchRecord ev} ∧
      (c.attachFrames cfg pid frames sl).records = others + {launchRecord (attachStack ev frames sl.samplePeriod)} ∧
      (c.attachFrames cfg pid frames sl).pending = c.pending ∧
      (c.attachFrames cfg pid frames sl).account = { c.account with stacksAttached := c.account.stacksAttached + 1 }) ∨
    ((c.attachFrames cfg pid frames sl).records = c.records ∧ (c.attachFrames cfg pid frames sl).pending =
        (c.pending.park (correlationID cfg pid sl.correlation) frames sl.samplePeriod).2 ∧
      (c.attachFrames cfg pid frames sl).account =
        { c.account with
          stacksEvicted := c.account.stacksEvicted + (c.pending.park
            (correlationID cfg pid sl.correlation) frames sl.samplePeriod).1 }) := by
  obtain ⟨hheld, hkey⟩ := c.deferred.held_takeNewest fun d =>
    d.launch.correlation == correlationID cfg pid sl.correlation
  unfold attachFrames
  dsimp only [correlationOf]
  split
  · next held deferred htake =>
      rw [htake] at hheld hkey
      have hbefore := records_deferred c { c with deferred := deferred } 0 rfl (hheld.trans (add_zero _).symm)
      left
      refine ⟨BatchConsumer.records { c with deferred := deferred }, held.launch,
        eq_of_beq (hkey held rfl), ?_, ?_, rfl, rfl⟩
      · simpa using hbefore.symm
      · exact records_emitLaunchLocked _ _ _
  · exact .inr ⟨rfl, rfl, rfl⟩

/-- The ways in which a sampled launch comes to nothing before its stack is resolved. -/
def Failed (a a' : StackAccount) : Prop :=
  a' = { a with stacksUncorrelated := a.stacksUncorrelated + 1 } ∨
    a' = { a with stackLookupFailed := a.stackLookupFailed + 1 } ∨
    a' = { a with symbolizeFailed := a.symbolizeFailed + 1 }

inductive StackOutcome (cfg : ConsumerConfig) (env : StackEnv) (pid : Nat) (stackID : Int)
    (sl : LaunchSampled) (c c' : BatchConsumer) : Prop
  | /-- The capture failed. -/
    missing (hid : stackID < 0) (hc : c' = c)
  | failed (hid : 0 ≤ stackID) (hrecords : c'.records = c.records)
      (hpending : c'.pending = c.pending) (haccount : Failed c.account c'.account)
  | /-- The stack never left the profiler. -/
    withheld (hid : 0 ≤ stackID) (hrecords : c'.records = c.records) (hpending : c'.pending = c.pending)
      (haccount : c'.account = { c.account with
        stacksResolved := c.account.stacksResolved + 1
        stacksProfilerOnly := c.account.stacksProfilerOnly + 1 })
  | /-- A launch waited for the stack. -/
    attached {frames : List Frame} {others : Multiset EventRecord} {ev : GPUKernelLaunch}
      (hcaptured : Captured cfg env pid stackID frames) (hcorr : sl.correlation ≠ 0)
      (hev : ev.correlation = correlationID cfg pid sl.correlation)
      (hbefore : c.records = others + {launchRecord ev})
      (hrecords : c'.records = others + {launchRecord (attachStack ev frames sl.samplePeriod)})
      (hpending : c'.pending = c.pending)
      (haccount : c'.account = { c.account with
        stacksResolved := c.account.stacksResolved + 1
        stacksAttached := c.account.stacksAttached + 1 })
  | /-- The stack waits for its launch. -/
    parked {frames : List Frame} (hcaptured : Captured cfg env pid stackID frames)
      (hcorr : sl.correlation ≠ 0) (hrecords : c'.records = c.records)
      (hpending : c'.pending = (c.pending.park (correlationID cfg pid sl.correlation) frames sl.samplePeriod).2)
      (haccount : c'.account = { c.account with
        stacksResolved := c.account.stacksResolved + 1
        stacksEvicted := c.account.stacksEvicted +
          (c.pending.park (correlationID cfg pid sl.correlation) frames sl.samplePeriod).1 })

theorem attachResolved_outcome {env : StackEnv} {c : BatchConsumer} {st : StackStats} {pid : Nat}
    {stackID : Int} {frames : List Frame} {sl : LaunchSampled}
    (hst : st.toStackAccount = { c.account with stacksResolved := c.account.stacksResolved + 1 })
    (hcaptured : Captured cfg env pid stackID (shownFrames cfg frames))
    (hcorr : sl.correlation ≠ 0) :
    StackOutcome cfg env pid stackID sl c (c.attachResolved cfg st pid frames sl) := by
  unfold attachResolved
  split
  · exact .withheld hcaptured.1 rfl rfl (by simp only [account, hst])
  · exact .withheld hcaptured.1 rfl rfl (by simp only [account, hst])
  · obtain ⟨hframes, haccount⟩ := collapseFrames_spec cfg st frames
    generalize collapseFrames cfg st frames = r at hframes haccount
    obtain ⟨shown, st'⟩ := r
    subst hframes
    have hst' : st'.toStackAccount = _ := haccount.trans hst
    rcases attachFrames_cases cfg { c with stackStats := st' } pid (shownFrames cfg frames) sl with
      ⟨others, ev, hev, hbefore, hrecords, hpending, ha⟩ | ⟨hrecords, hpending, ha⟩
    · refine .attached hcaptured hcorr hev hbefore hrecords hpending (ha.trans ?_)
      simp only [account, hst']
    · refine .parked hcaptured hcorr hrecords hpending (ha.trans ?_)
      simp only [account, hst']

theorem attachSampledStackLocked_outcome (env : StackEnv) (c : BatchConsumer) (pid : Nat)
    (stackID : Int) (sl : LaunchSampled) :
    StackOutcome cfg env pid stackID sl c (c.attachSampledStackLocked cfg env pid stackID sl) := by
  unfold attachSampledStackLocked
  split_ifs with hid hcorr
  · exact .missing hid rfl
  · refine .failed (not_lt.mp hid) rfl rfl (.inl ?_)
    exact StackStats.account_freeStackLocked env _ _
  · have hres := resolution_resolveStackLocked env c.stackStats pid stackID.toNat
    split
    · next st h =>
        rw [h] at hres
        refine .failed (not_lt.mp hid) rfl rfl (.inr ?_)
        generalize hst : st.toStackAccount = a at hres
        cases hres with
        | lookupFailed => exact .inl hst
        | symbolizeFailed => exact .inr hst
    · next st frames h =>
        rw [h] at hres
        have hst : st.toStackAccount = c.account := by
          generalize hst : st.toStackAccount = a at hres
          cases hres with
          | resolved => rfl
        refine attachResolved_outcome ?_ ⟨not_lt.mp hid, c.stackStats, st, frames, h, rfl⟩ hcorr
        rw [← hst]

end BatchConsumer

end PerfAgent.Gpuprobe
