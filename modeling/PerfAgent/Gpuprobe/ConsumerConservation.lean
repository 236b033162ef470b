import Mathlib.Data.List.Induction
import PerfAgent.Gpuprobe.StackAccounting

/-!
# Nothing is lost and nothing is delivered twice

Every launch, execution and PC sample that a batch brings is one event, and a flush leaves
every event at the sink, once.  The invariant is an equation of multisets: what the sink has
been given and what the three queues hold is what the batches brought.

The stacks are followed beside it.  A stack that a launch carries, or that waits for one, was
resolved for a sampled launch of the same process and correlation.
-/

namespace PerfAgent.Gpuprobe

open Gpu List

def EventRecord.stackless : EventRecord → EventRecord
  | launch ev => launch { ev with launch := { ev.launch with cpuStack := [], samplePeriod := 0 } }
  | exec ev => exec ev
  | pcSample ev => pcSample ev

def Batch.records (cfg : ConsumerConfig) (b : Batch) : List EventRecord :=
  match b.kind with
  | .launch => b.launches.map fun l => launchRecord (BatchConsumer.launchEvent cfg b.pid l)
  | .exec => b.execs.map fun e => execRecord (BatchConsumer.execEvent cfg b.pid e)
  | .pc => b.pcSamples.map fun p => pcSampleRecord (BatchConsumer.pcSampleEvent cfg b.pid p)
  | _ => []

variable {ev : GPUKernelLaunch} {sl : LaunchSampled} {pid : Nat} {env : StackEnv}

def ConsumerCall.records (cfg : ConsumerConfig) : ConsumerCall → List EventRecord
  | applyBatch b _ => b.records cfg
  | flush => []

namespace BatchConsumer

variable {cfg : ConsumerConfig}

/-! ## Records that are not launches -/

theorem records_applyExec (pid : Nat) (c : BatchConsumer) (e : Exec) :
    (applyExec cfg pid c e).records = c.records + {execRecord (execEvent cfg pid e)} := by
  simp only [applyExec, records, Outlet.emitExecLocked, Outlet.records_emitLocked, KernelEvent.record]
  exact add_right_comm _ _ _

theorem records_applyKernelName (c : BatchConsumer) (n : KernelNameRecord) :
    (applyKernelName cfg c n).records = c.records := by
  simp only [applyKernelName, records, Outlet.records_learnKernelNameLocked]
  rfl

theorem records_emitPCSampleLocked (pid : Nat) (c : BatchConsumer) (p : PCSample) :
    (c.emitPCSampleLocked cfg pid p).records = c.records + {pcSampleRecord (pcSampleEvent cfg pid p)} := by
  simp only [emitPCSampleLocked, records, Outlet.records_deliverPCSample]
  exact add_right_comm _ _ _

theorem records_applyStallReason (c : BatchConsumer) (s : StallReason) :
    (applyStallReason cfg c s).records = c.records := by
  simp only [applyStallReason, records, Outlet.records_learnStallNameLocked]
  rfl

theorem records_emitModuleLocked (c : BatchConsumer) (m : ModuleLoad) :
    (c.emitModuleLocked cfg m).records = c.records := by
  simp only [emitModuleLocked, records]
  rw [Outlet.records_emit_of_none _ rfl]

theorem records_noteDropLocked (pid : Nat) (c : BatchConsumer) (d : Dropped) :
    (c.noteDropLocked cfg pid d).records = c.records := by
  unfold noteDropLocked
  dsimp only
  split_ifs
  · rfl
  · simp only [records]
    rw [Outlet.records_emit_of_none _ rfl]

theorem delivered_noteSamplingWindowLocked (s : Consumer × List SinkCall) (pid lost : Nat) (w : WireWindow) :
    delivered (Consumer.noteSamplingWindowLocked
      (fun sent w => (sent ++ [.samplingWindow w], cfg.accepts (sent ++ [.samplingWindow w])))
      s pid w lost).2 = delivered s.2 := by
  rw [delivered, Consumer.noteSamplingWindowLocked, filterMap_append]
  exact append_nil _

theorem records_noteSamplingWindows (c : BatchConsumer) (pid lost : Nat) (ws : List WireWindow) :
    (c.noteSamplingWindows cfg pid lost ws).records = c.records := by
  have hsent : delivered (c.noteSamplingWindows cfg pid lost ws).sent = delivered c.sent := by
    cases ws with
    | nil => rfl
    | cons w ws =>
      refine (foldl_keeps (fun s : Consumer × List SinkCall => delivered s.2) ?_ _ _).trans
        (delivered_noteSamplingWindowLocked (c.toConsumer, c.sent) pid lost w)
      exact fun s w => delivered_noteSamplingWindowLocked s pid 0 w
  simp only [records, Outlet.records, hsent]
  rfl

theorem records_applyRecords (env : StackEnv) (c : BatchConsumer) {b : Batch} (lost : Nat)
    (hlaunch : b.kind ≠ .launch) (hsampled : b.kind ≠ .launchSampled) :
    (c.applyRecords cfg env b lost).records = c.records + (b.records cfg : Multiset EventRecord) := by
  unfold applyRecords Batch.records
  cases hk : b.kind with
  | launch => exact absurd hk hlaunch
  | launchSampled => exact absurd hk hsampled
  | exec => exact foldl_measure (records_applyExec b.pid) _ _
  | pc =>
    refine foldl_measure (fun c p => ?_) _ _
    exact records_emitPCSampleLocked b.pid c.countRecord p
  | kernelName =>
    exact (foldl_keeps records records_applyKernelName _ _).trans (add_zero _).symm
  | stallMap =>
    exact (foldl_keeps records records_applyStallReason _ _).trans (add_zero _).symm
  | module =>
    refine (foldl_keeps records (fun c m => ?_) _ _).trans (add_zero _).symm
    exact records_emitModuleLocked c.countRecord m
  | samplingWindow =>
    exact (records_noteSamplingWindows c b.pid lost b.samplingWindows).trans (add_zero _).symm
  | config =>
    refine (foldl_keeps records ?_ _ _).trans (add_zero _).symm
    exact fun c config => rfl
  | dropped =>
    refine (foldl_keeps records (fun c d => ?_) _ _).trans (add_zero _).symm
    exact records_noteDropLocked b.pid c.countRecord d
  | other => exact (add_zero _).symm

/-! ## Launches and stacks -/

def events (c : BatchConsumer) : Multiset EventRecord := c.records.map EventRecord.stackless

theorem stackless_of_mem_records {b : Batch} {r : EventRecord} (hr : r ∈ b.records cfg) : r.stackless = r := by
  unfold Batch.records at hr
  split at hr
  · obtain ⟨l, -, rfl⟩ := mem_map.mp hr
    rfl
  · obtain ⟨e, -, rfl⟩ := mem_map.mp hr
    rfl
  · obtain ⟨p, -, rfl⟩ := mem_map.mp hr
    rfl
  · cases hr

theorem records_beginBatch (c : BatchConsumer) (b : Batch) : (c.beginBatch cfg b).2.records = c.records := by
  unfold beginBatch
  dsimp only
  split_ifs
  · rfl
  · exact (releaseDeferredLocked_spec cfg _).1

variable (cfg) in
theorem flush_spec (c : BatchConsumer) : (c.flush cfg).records = c.records ∧
      (delivered (c.flush cfg).sent : Multiset EventRecord) = c.records := by
  obtain ⟨hrecords, hdeferred, -, -⟩ := releaseDeferredLocked_spec cfg c
  have hstay : (c.flush cfg).records = c.records := by
    rw [← hrecords]
    simp only [records, flush, Outlet.records_releaseUnresolvedStallAllLocked, Outlet.records_releaseUnnamedAllLocked]
  have hd : (c.flush cfg).deferred.held = 0 := hdeferred
  have hr : (c.flush cfg).unresolvedStall.held = 0 :=
    (Outlet.held_releaseUnresolvedStallAllLocked _).1
  have hu : (c.flush cfg).unnamed.held = 0 :=
    (congrArg HoldQueue.held (Outlet.held_releaseUnresolvedStallAllLocked _).2).trans
      (Outlet.held_unnamed_releaseUnnamedAllLocked _)
  refine ⟨hstay, ?_⟩
  rw [← hstay, records, Outlet.records, hd, hu, hr]
  simp

/-! ## Where the stacks come from -/

/-- What a record says about its stack: it has none, or `P` holds of its correlation, the stack
and its period. -/
def StackFrom (P : CorrelationID → List Frame → Nat → Prop) : EventRecord → Prop
  | .launch ev =>
    ev.launch.cpuStack = [] ∨ P ev.correlation ev.launch.cpuStack ev.launch.samplePeriod
  | _ => True

/-- Every stack that a launch has, or that waits for one, is where `P` says. -/
structure Sound (P : CorrelationID → List Frame → Nat → Prop) (c : BatchConsumer) : Prop where
  records : ∀ r ∈ c.records, StackFrom P r
  pending : ∀ key st, c.pending.byKey.find? key = some st → P key st.frames st.period

section Sound

variable {P Q : CorrelationID → List Frame → Nat → Prop} {c c' : BatchConsumer}

theorem Sound.mono (h : c.Sound P) (hPQ : ∀ key frames period, P key frames period →
    Q key frames period) : c.Sound Q where
  records r hr := by
    have := h.records r hr
    cases r with
    | launch ev => exact this.imp_right (hPQ _ _ _)
    | exec ev => trivial
    | pcSample ev => trivial
  pending key st hst := hPQ _ _ _ (h.pending key st hst)

theorem Sound.add {new : Multiset EventRecord} (h : c.Sound P)
    (hrecords : c'.records = c.records + new) (hnew : ∀ r ∈ new, StackFrom P r) (hpending : c'.pending = c.pending) :
    c'.Sound P where
  records r hr := by
    rw [hrecords] at hr
    exact (Multiset.mem_add.mp hr).elim (h.records r) (hnew r)
  pending key st hst := h.pending key st (hpending ▸ hst)

theorem Sound.launch {ev : GPUKernelLaunch} (h : c.Sound P) (ho : LaunchOutcome ev c c')
    (hev : ev.launch.cpuStack = []) : c'.Sound P := by
  cases ho with
  | alone hrecords hpending _ =>
    refine h.add hrecords (fun r hr => ?_) hpending
    rw [Multiset.mem_singleton.mp hr]
    exact .inl hev
  | joined hrecords htake _ =>
    obtain ⟨hst, -⟩ := PendingStacks.take_eq_some htake
    refine ⟨fun r hr => ?_, fun key st' hst' => ?_⟩
    · rw [hrecords] at hr
      rcases Multiset.mem_add.mp hr with hr | hr
      · exact h.records r hr
      · rw [Multiset.mem_singleton.mp hr]
        exact .inr (h.pending _ _ hst)
    · exact h.pending key st' (PendingStacks.find?_take htake hst')

theorem Sound.stack {stackID : Int} (h : c.Sound P) (ho : StackOutcome cfg env pid stackID sl c c')
    (hP : ∀ frames, Captured cfg env pid stackID frames → sl.correlation ≠ 0 →
      P (correlationID cfg pid sl.correlation) frames sl.samplePeriod) : c'.Sound P := by
  cases ho with
  | missing _ hc =>
    rw [hc]
    exact h
  | failed _ hrecords hpending _ =>
    exact ⟨hrecords ▸ h.records, hpending ▸ h.pending⟩
  | withheld _ hrecords hpending _ =>
    exact ⟨hrecords ▸ h.records, hpending ▸ h.pending⟩
  | attached hcaptured hcorr hev hbefore hrecords hpending _ =>
    have hp := hP _ hcaptured hcorr
    rw [← hev] at hp
    refine ⟨fun r hr => ?_, hpending ▸ h.pending⟩
    rw [hrecords] at hr
    rcases Multiset.mem_add.mp hr with hr | hr
    · exact h.records r (hbefore ▸ Multiset.mem_add.mpr (.inl hr))
    · rw [Multiset.mem_singleton.mp hr]
      exact .inr hp
  | parked hcaptured hcorr hrecords hpending _ =>
    refine ⟨hrecords ▸ h.records, fun key st hst => ?_⟩
    rw [hpending] at hst
    rcases PendingStacks.find?_park hst with ⟨rfl, hframes, hperiod⟩ | hst
    · rw [hframes, hperiod]
      exact hP _ hcaptured hcorr
    · exact h.pending key st hst

theorem stackFrom_of_mem_records {b : Batch} {r : EventRecord} (hr : r ∈ b.records cfg) : StackFrom P r := by
  have hr' := stackless_of_mem_records hr
  cases r with
  | launch ev =>
    rw [EventRecord.stackless, EventRecord.launch.injEq] at hr'
    rw [← hr']
    exact .inl rfl
  | exec ev => trivial
  | pcSample ev => trivial

theorem Sound.beginBatch (h : c.Sound P) (b : Batch) : (c.beginBatch cfg b).2.Sound P := by
  obtain ⟨hpending, -⟩ := Prod.mk.inj (stackState_beginBatch cfg c b)
  refine h.add ((records_beginBatch c b).trans (add_zero _).symm) (fun r hr => ?_) hpending
  cases Multiset.notMem_zero r hr

theorem Sound.applyBatch {env : StackEnv} {b : Batch} (h : c.Sound P)
    (hP : b.kind = .launchSampled → ∀ sl ∈ b.sampledLaunches, ∀ frames,
      Captured cfg env b.pid b.stackID frames → sl.correlation ≠ 0 →
        P (correlationID cfg b.pid sl.correlation) frames sl.samplePeriod) :
    (c.applyBatch cfg env b).Sound P := by
  have hbegin : (c.beginBatch cfg b).2.Sound P := h.beginBatch b
  unfold BatchConsumer.applyBatch
  by_cases hlaunch : b.kind = .launch
  · simp only [applyRecords, hlaunch]
    refine List.foldlRecOn _ _ hbegin fun c hc l _ => ?_
    have hc' : (c.countRecord.correlationOf cfg b.pid l.correlation).2.Sound P :=
      ⟨hc.records, hc.pending⟩
    exact hc'.launch (admitLaunchLocked_outcome cfg _ _ _) rfl
  · by_cases hsampled : b.kind = .launchSampled
    · simp only [applyRecords, hsampled]
      refine List.foldlRecOn _ _ ⟨hbegin.records, hbegin.pending⟩ fun c hc sl hsl => ?_
      have hc' : Sound P { c.countRecord with stackStats := { c.countRecord.stackStats with
          sampledLaunches := c.countRecord.stackStats.sampledLaunches + 1 } } :=
        ⟨hc.records, hc.pending⟩
      exact hc'.stack (attachSampledStackLocked_outcome env _ b.pid b.stackID sl) (hP hsampled sl hsl)
    · obtain ⟨hpending, -⟩ := Prod.mk.inj
        (stackState_applyRecords cfg env (c.beginBatch cfg b).2 (c.beginBatch cfg b).1 hlaunch hsampled)
      exact hbegin.add (records_applyRecords env _ _ hlaunch hsampled)
        (fun r hr => stackFrom_of_mem_records hr) hpending

theorem Sound.flush (h : c.Sound P) : (c.flush cfg).Sound P := by
  obtain ⟨-, -, hpending, -⟩ := releaseDeferredLocked_spec cfg c
  refine h.add ((flush_spec cfg c).1.trans (add_zero _).symm) (fun r hr => ?_) hpending
  cases Multiset.notMem_zero r hr

end Sound

/-! ## Every run -/

/-- A stack that one of the calls brought: it was resolved for a sampled launch of the process
and the correlation that the key is made of. -/
def Brought (cfg : ConsumerConfig) (calls : List ConsumerCall) (key : CorrelationID)
    (frames : List Frame) (period : Nat) : Prop :=
  ∃ b env sl, .applyBatch b env ∈ calls ∧ b.kind = .launchSampled ∧ sl ∈ b.sampledLaunches ∧
    sl.correlation ≠ 0 ∧ key = correlationID cfg b.pid sl.correlation ∧ period = sl.samplePeriod ∧
    Captured cfg env b.pid b.stackID frames

theorem Brought.append {calls calls' : List ConsumerCall} {key : CorrelationID}
    {frames : List Frame} {period : Nat} (h : Brought cfg calls key frames period) :
    Brought cfg (calls ++ calls') key frames period := by
  obtain ⟨b, env, sl, hb, h⟩ := h
  exact ⟨b, env, sl, mem_append_left _ hb, h⟩

end BatchConsumer

/-- A stack of process 7, and the launches of two processes that have its correlation value. -/
def twoTwins : List ConsumerCall :=
  [.applyBatch
      { kind := .launchSampled, pid := 7, stackID := 3,
        sampledLaunches := [{ correlation := 9, samplePeriod := 8 }] }
      { gpuStacks := some { lookupBytes := fun _ => .value ([1] ++ List.replicate 1151 0) },
        symbolizer := some fun _ ips => some (ips.map fun ip => { address := ip }) },
   .applyBatch { kind := .launch, pid := 8, launches := [{ correlation := 9 }] } {},
   .applyBatch { kind := .launch, pid := 7, launches := [{ correlation := 9 }] } {}]

-- the process of each launch, and whether it was given the stack
example : (((consumed {} twoTwins).flush {}).sent.map fun call =>
    match call with
    | .launch ev => (ev.launch.pid, !ev.launch.cpuStack.isEmpty)
    | _ => (0, false)) = [(8, false), (7, true)] := by decide +kernel

end PerfAgent.Gpuprobe
