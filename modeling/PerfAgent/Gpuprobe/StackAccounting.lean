import PerfAgent.Gpuprobe.BatchSteps

/-!
# The account of sampled stacks

Two equations of the counters that hold between any two calls of the consumer: every sampled
launch is in one of five counters, and every stack that was resolved is on a launch, given up,
withheld or still parked.  Each way through `attachSampledStackLocked` is one line of the
account, and a launch that takes a parked stack moves it from one term to another.
-/

namespace PerfAgent.Gpuprobe

open Gpu

def StackAccount.Reconciles (a : StackAccount) (pendingStacks : Nat) : Prop :=
  a.sampledLaunches = a.stacksMissing + a.stacksUncorrelated + a.stackLookupFailed +
      a.symbolizeFailed + a.stacksResolved ∧
    a.stacksResolved = a.stacksAttached + a.stacksEvicted + a.stacksProfilerOnly + pendingStacks

namespace BatchConsumer

variable {cfg : ConsumerConfig}

def Reconciled (c : BatchConsumer) : Prop := c.account.Reconciles c.pending.len

def stackState (c : BatchConsumer) : PendingStacks × StackAccount := (c.pending, c.account)

theorem Reconciled.of_eq {c c' : BatchConsumer} (h : c.Reconciled)
    (he : c'.stackState = c.stackState) : c'.Reconciled := by
  obtain ⟨hp, ha⟩ := Prod.mk.inj he
  rw [Reconciled, hp, ha]
  exact h

/-! ## One record -/

theorem Reconciled.launch {c c' : BatchConsumer} {ev : GPUKernelLaunch} (h : c.Reconciled)
    (ho : LaunchOutcome ev c c') : c'.Reconciled := by
  cases ho with
  | alone _ hpending haccount => exact h.of_eq (by rw [stackState, hpending, haccount]; rfl)
  | joined _ hpending haccount =>
    obtain ⟨h₁, h₂⟩ := h
    have hlen := PendingStacks.len_take hpending
    rw [Reconciled, haccount]
    refine ⟨h₁, h₂.trans ?_⟩
    dsimp only
    omega

/-- The account of a sampled launch before its stack is looked at: it is counted, and so is a
capture that failed. -/
theorem Reconciled.stack {c c' : BatchConsumer} {env : StackEnv} {pid : Nat} {stackID : Int}
    {sl : LaunchSampled} (h : c.Reconciled)
    (ho : StackOutcome cfg env pid stackID sl
      { c with stackStats := { c.stackStats with
        stacksMissing := c.stackStats.stacksMissing + if stackID < 0 then 1 else 0
        sampledLaunches := c.stackStats.sampledLaunches + 1 } } c') : c'.Reconciled := by
  obtain ⟨h₁, h₂⟩ := h
  dsimp only [account] at h₁ h₂
  cases ho with
  | missing hid hc =>
    subst hc
    rw [if_pos hid]
    refine ⟨?_, h₂⟩
    dsimp only [account]
    omega
  | failed hid _ hpending haccount =>
    rw [Reconciled, hpending]
    obtain ha | ha | ha := haccount <;>
    · rw [ha, if_neg (not_lt.mpr hid)]
      refine ⟨?_, h₂⟩
      dsimp only [account]
      omega
  | withheld hid _ hpending haccount =>
    rw [Reconciled, hpending, haccount, if_neg (not_lt.mpr hid)]
    constructor <;> dsimp only [account] <;> omega
  | attached hcaptured _ _ _ _ hpending haccount =>
    rw [Reconciled, hpending, haccount, if_neg (not_lt.mpr hcaptured.1)]
    constructor <;> dsimp only [account] <;> omega
  | @parked frames hcaptured _ _ hpending haccount =>
    have hlen := c.pending.len_park (correlationID cfg pid sl.correlation) frames sl.samplePeriod
    rw [Reconciled, hpending, haccount, if_neg (not_lt.mpr hcaptured.1)]
    constructor <;> dsimp only [account] <;> omega

/-! ## One call -/

variable (cfg) in
theorem stackState_applyRecords (env : StackEnv) (c : BatchConsumer) {b : Batch} (lost : Nat)
    (hlaunch : b.kind ≠ .launch) (hsampled : b.kind ≠ .launchSampled) :
    (c.applyRecords cfg env b lost).stackState = c.stackState := by
  unfold applyRecords
  split
  · next h => exact absurd h hlaunch
  · exact foldl_keeps (f := applyExec cfg b.pid) stackState (fun c e => rfl) _ _
  · next h => exact absurd h hsampled
  · exact foldl_keeps (f := applyKernelName cfg) stackState (fun c n => rfl) _ _
  · refine foldl_keeps stackState ?_ _ _
    exact fun c m => rfl
  · refine foldl_keeps stackState ?_ _ _
    exact fun c p => rfl
  · exact foldl_keeps (f := applyStallReason cfg) stackState (fun c s => rfl) _ _
  · rfl
  · refine foldl_keeps stackState ?_ _ _
    exact fun c config => rfl
  · refine foldl_keeps stackState (fun c d => ?_) _ _
    unfold noteDropLocked
    dsimp only
    split_ifs <;> rfl
  · rfl

theorem stackState_releaseDeferredLocked (c : BatchConsumer) :
    (c.releaseDeferredLocked cfg).stackState = c.stackState := by
  obtain ⟨-, -, hpending, haccount⟩ := releaseDeferredLocked_spec cfg c
  rw [stackState, hpending, haccount]
  rfl

variable (cfg) in
theorem stackState_beginBatch (c : BatchConsumer) (b : Batch) : (c.beginBatch cfg b).2.stackState = c.stackState := by
  unfold beginBatch
  dsimp only
  split_ifs
  · rfl
  · exact stackState_releaseDeferredLocked _

/-- A batch that was decoded keeps the account in order: if it is a sampled one, it has one
record for its one stack. -/
theorem Reconciled.applyBatch {c : BatchConsumer} (h : c.Reconciled) (env : StackEnv) {b : Batch}
    (hb : b.Decoded) : (c.applyBatch cfg env b).Reconciled := by
  have hbegin : (c.beginBatch cfg b).2.Reconciled := h.of_eq (stackState_beginBatch cfg c b)
  unfold BatchConsumer.applyBatch
  by_cases hlaunch : b.kind = .launch
  · simp only [applyRecords, hlaunch]
    refine List.foldlRecOn _ _ hbegin fun c hc l _ => ?_
    have hc' : (c.countRecord.correlationOf cfg b.pid l.correlation).2.Reconciled := hc.of_eq rfl
    exact hc'.launch (admitLaunchLocked_outcome cfg _ _ _)
  · by_cases hsampled : b.kind = .launchSampled
    · obtain ⟨sl, hsl⟩ := List.length_eq_one_iff.mp (hb.length_sampledLaunches hsampled)
      simp only [applyRecords, hsampled, hsl, List.foldl_cons, List.foldl_nil, applyLaunchSampled]
      have hcount : (c.beginBatch cfg b).2.countRecord.Reconciled := hbegin.of_eq rfl
      exact hcount.stack (attachSampledStackLocked_outcome env _ b.pid b.stackID sl)
    · exact hbegin.of_eq (stackState_applyRecords cfg env _ _ hlaunch hsampled)

theorem Reconciled.flush {c : BatchConsumer} (h : c.Reconciled) : (c.flush cfg).Reconciled := by
  have hrelease : (c.releaseDeferredLocked cfg).Reconciled :=
    h.of_eq (stackState_releaseDeferredLocked c)
  exact hrelease.of_eq rfl

end BatchConsumer

open BatchConsumer in
/-- Between any two calls, whatever the stack map and the symbolizer answer, every sampled launch
is in one of five counters, and every stack that was resolved is attached, given up, withheld or
parked. -/
theorem sampled_stacks_reconcile (cfg : ConsumerConfig) (calls : List ConsumerCall)
    (hdecoded : ∀ b env, .applyBatch b env ∈ calls → b.Decoded) :
    let c := consumed cfg calls
    c.stackStats.sampledLaunches = c.stackStats.stacksMissing + c.stackStats.stacksUncorrelated +
        c.stackStats.stackLookupFailed + c.stackStats.symbolizeFailed +
        c.stackStats.stacksResolved ∧
      c.stackStats.stacksResolved = c.stackStats.stacksAttached + c.stackStats.stacksEvicted +
        c.stackStats.stacksProfilerOnly + c.pending.len := by
  have hinit : (newConsumer cfg).Reconciled := ⟨rfl, rfl⟩
  have h : (consumed cfg calls).Reconciled := by
    refine List.foldlRecOn _ _ hinit fun c hc call hcall => ?_
    cases call with
    | applyBatch b env => exact hc.applyBatch env (hdecoded b env hcall)
    | flush => exact hc.flush
  exact h

/-! A sampled launch whose stack is resolved and taken by its launch, and one without a
correlation. -/

def sampleOf (kind stackID : UInt8) (payload : List UInt8) : List UInt8 :=
  [kind, 0, 0, 0, 1, 0, 0, 0] ++ List.replicate 8 0 ++ [7, 0, 0, 0, 7, 0, 0, 0] ++
    [UInt8.ofNat payload.length, 0, 0, 0, 0, 0, 0, 0] ++ [stackID, 0, 0, 0, 0, 0, 0, 0] ++ payload

def sampledWith (correlation : UInt8) : List UInt8 :=
  [correlation] ++ List.replicate 43 0 ++ [8, 0, 0, 0] ++ List.replicate 8 0

/-- Every stack has one word, and every word is `main`. -/
def inMain : StackEnv :=
  { gpuStacks := some { lookupBytes := fun _ => .value ([1] ++ List.replicate 1151 0) }
    symbolizer := some fun _ ips => some (ips.map fun ip => { address := ip, name := "main" }) }

def decodedBatch (raw : List UInt8) : Batch :=
  (decodeBatch raw).toOption.getD { kind := .other 0 }

theorem decoded_decodedBatch {raw : List UInt8} (h : (decodeBatch raw).isOk = true) : (decodedBatch raw).Decoded := by
  cases hr : decodeBatch raw with
  | error e =>
    rw [hr] at h
    cases h
  | ok b =>
    refine ⟨raw, ?_⟩
    rw [decodedBatch, hr]
    rfl

def twoSampled : List ConsumerCall :=
  [.applyBatch (decodedBatch (sampleOf 5 3 (sampledWith 9))) inMain,
   .applyBatch (decodedBatch (sampleOf 1 0 ([9] ++ List.replicate 47 0))) {},
   .applyBatch (decodedBatch (sampleOf 5 4 (sampledWith 0))) inMain]

theorem sampled_stacks_reconcile_two : (consumed {} twoSampled).account =
        { sampledLaunches := 2, stacksUncorrelated := 1, stacksResolved := 1,
          stacksAttached := 1 } ∧
      (consumed {} twoSampled).account.Reconciles (consumed {} twoSampled).pending.len := by
  have hreconcile : ∀ calls, (∀ b env, .applyBatch b env ∈ calls → b.Decoded) →
      (consumed {} calls).account.Reconciles (consumed {} calls).pending.len :=
    fun calls => sampled_stacks_reconcile {} calls
  refine ⟨by decide +kernel, hreconcile twoSampled fun b env h => ?_⟩
  simp only [twoSampled, List.mem_cons, ConsumerCall.applyBatch.injEq, List.not_mem_nil, or_false] at h
  obtain ⟨rfl, -⟩ | ⟨rfl, -⟩ | ⟨rfl, -⟩ := h
  · exact decoded_decodedBatch (by decide +kernel)
  · exact decoded_decodedBatch (by decide +kernel)
  · exact decoded_decodedBatch (by decide +kernel)

end PerfAgent.Gpuprobe
