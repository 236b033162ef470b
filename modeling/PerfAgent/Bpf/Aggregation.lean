import PerfAgent.Bpf.OffCpu
import PerfAgent.Lib.Lists
import Mathlib.Algebra.Order.Ring.Nat

/-!
# Aggregating in the kernel

`profile` of `bpf/perf.bpf.c` and `handle_sched_switch` of `bpf/offcpu.bpf.c` add to the value under a
key: they look the key up, and then add through the pointer, or insert.  Instances on different CPUs
interleave between these operations.  When two of them have missed the same key, the second insert is
refused, and as nobody looks at its result, what it was to add is lost.

The increment of `profile`, which is not atomic in the source, is one operation here.
-/

namespace PerfAgent.Bpf

open List Function

/-! ## What is added -/

/-- `struct sample_key` of `perf.bpf.c`. -/
structure SampleKey where
  pid : UInt32
  flags : UInt32
  kernStack : Int64
  userStack : Int64
deriving DecidableEq

/-- `struct pid_config`. -/
structure PidConfig where
  type : UInt8
  collectUser : UInt8
  collectKernel : UInt8

structure ProfileConfig where
  systemWide : Bool
  kernelStacksEnabled : Bool
  pids : UInt32 → Option PidConfig

/-- What `profile` reads: the current task, and the stack ids that `bpf_get_stackid` gives. -/
structure ProfileSeen where
  tgid : UInt32
  /-- The flags of the task, unless it is null. -/
  task : Option UInt32
  kernStackId : Int64
  userStackId : Int64

/-- The key that `profile` counts under, if it counts. -/
def profileKey (cfg : ProfileConfig) (seen : ProfileSeen) : Option SampleKey :=
  match seen.task with
  | none => none
  | some flags =>
    if seen.tgid = 0 then none
    else if flags &&& pfKthread ≠ 0 then none
    else if cfg.systemWide then some {
      pid := seen.tgid
      flags := 0
      kernStack := if cfg.kernelStacksEnabled then seen.kernStackId else -1
      userStack := seen.userStackId }
    else
      match cfg.pids seen.tgid with
      | none => none
      | some config => some {
          pid := seen.tgid
          flags := 0
          kernStack := if cfg.kernelStacksEnabled ∧ config.collectKernel ≠ 0 then seen.kernStackId else -1
          userStack := if config.collectUser ≠ 0 then seen.userStackId else -1 }

/-! ## How it is added -/

inductive AggregatePhase where
  | lookup
  | add
  | insert
  | finished
deriving DecidableEq

/-- A program that is about to add `weight` to the value under `key`. -/
structure AggregateInstance (K : Type) where
  key : K
  weight : UInt64
  phase : AggregatePhase := .lookup

structure Aggregate (K : Type) where
  values : K → Option UInt64 := fun _ => none
  instances : List (AggregateInstance K)

variable {K : Type} [DecidableEq K]

def AggregateInstance.next (x : AggregateInstance K) (values : K → Option UInt64) :
    (K → Option UInt64) × AggregateInstance K :=
  match x.phase with
  | .lookup => (values, { x with phase := if (values x.key).isSome then .add else .insert })
  | .add => (update values x.key ((values x.key).map (· + x.weight)), { x with phase := .finished })
  | .insert =>
    -- `BPF_NOEXIST`: a key that is there stays as it is
    (if (values x.key).isSome then values else update values x.key (some x.weight), { x with phase := .finished })
  | .finished => (values, x)

namespace Aggregate

/-- The `i`-th instance goes on. -/
def step (s : Aggregate K) (i : ℕ) : Aggregate K :=
  match s.instances[i]? with
  | none => s
  | some x => { values := (x.next s.values).1, instances := s.instances.set i (x.next s.values).2 }

def ofJobs (jobs : List (K × UInt64)) : Aggregate K :=
  { instances := jobs.map fun job => { key := job.1, weight := job.2 } }

def stored (s : Aggregate K) (k : K) : ℕ := ((s.values k).getD 0).toNat

def Finished (s : Aggregate K) : Prop := ∀ x ∈ s.instances, x.phase = .finished

end Aggregate

/-- What the instances have to add under `k`. -/
def totalWeight (jobs : List (K × UInt64)) (k : K) : ℕ :=
  (jobs.map fun job => if job.1 = k then job.2.toNat else 0).sum

/-! ## Accounting

What an instance has to add is pending until it is finished, and then it is in the map or lost. -/

namespace AggregateInstance

variable (x : AggregateInstance K) (values : K → Option UInt64) (k : K)

def pending : ℕ := if x.phase ≠ .finished ∧ x.key = k then x.weight.toNat else 0

def loss : ℕ := if x.phase = .insert ∧ (values x.key).isSome ∧ x.key = k then x.weight.toNat else 0

def Found : Prop := x.phase = .add → (values x.key).isSome

variable {x values}

theorem isSome_next {k : K} (h : (values k).isSome) : ((x.next values).1 k).isSome := by
  unfold next
  cases x.phase with
  | lookup => exact h
  | finished => exact h
  | add =>
    by_cases hk : k = x.key
    · subst hk
      simpa using h
    · simpa [update_of_ne hk] using h
  | insert =>
    dsimp only
    split
    · exact h
    · by_cases hk : k = x.key
      · subst hk
        simp
      · simpa [update_of_ne hk] using h

theorem found_next : (x.next values).2.Found (x.next values).1 := by
  unfold Found next
  cases hphase : x.phase with
  | lookup =>
    intro hadd
    dsimp only at hadd ⊢
    by_contra habsent
    rw [if_neg habsent] at hadd
    cases hadd
  | add => exact fun h => absurd h (by simp)
  | insert => exact fun h => absurd h (by simp)
  | finished => exact fun h => absurd h (by simp [hphase])

theorem pending_add_loss_le : (x.next values).2.pending k + x.loss values k ≤ x.pending k := by
  unfold pending loss next
  cases hphase : x.phase with
  | lookup =>
    dsimp only
    split
    · simp
    · simp
  | add => simp
  | insert =>
    by_cases hkey : x.key = k
    · by_cases hv : (values x.key).isSome
      · simp [hkey]
        split <;> simp
      · simp [hkey]
        split <;> simp
    · simp [hkey]
  | finished => simp [hphase]

theorem next_modEq (hfound : x.Found values) :
    (((x.next values).1 k).getD 0).toNat + (x.next values).2.pending k + x.loss values k ≡
      ((values k).getD 0).toNat + x.pending k [MOD 2 ^ 64] := by
  unfold pending loss next
  cases hphase : x.phase with
  | lookup =>
    dsimp only
    split
    · simpa using Nat.ModEq.rfl
    · simpa using Nat.ModEq.rfl
  | finished => simpa [hphase] using Nat.ModEq.rfl
  | add =>
    obtain ⟨v, hv⟩ := Option.isSome_iff_exists.mp (hfound hphase)
    by_cases hk : k = x.key
    · subst hk
      simp only [update_self, hv]
      simpa [UInt64.toNat_add] using Nat.mod_modEq _ _
    · have hkey : ¬x.key = k := Ne.symm hk
      simpa [hkey, update_of_ne hk] using Nat.ModEq.rfl
  | insert =>
    by_cases hk : k = x.key
    · subst hk
      cases hv : values x.key with
      | none => simpa using Nat.ModEq.rfl
      | some v => simpa [hv] using Nat.ModEq.rfl
    · have hkey : ¬x.key = k := Ne.symm hk
      by_cases hv : (values x.key).isSome
      · simpa [hkey, hv] using Nat.ModEq.rfl
      · simpa [hkey, hv, update_of_ne hk] using Nat.ModEq.rfl

end AggregateInstance

namespace Aggregate

variable (s : Aggregate K) (k : K)

def pending : ℕ := (s.instances.map (·.pending k)).sum

/-- What the next operation of the `i`-th instance loses. -/
def lossAt (i : ℕ) : ℕ :=
  match s.instances[i]? with
  | none => 0
  | some x => x.loss s.values k

def lost : Aggregate K → List ℕ → ℕ
  | _, [] => 0
  | s, i :: order => s.lossAt k i + lost (s.step i) order

def Found : Prop := ∀ x ∈ s.instances, x.Found s.values

variable {s}

omit [DecidableEq K] in
theorem found_ofJobs (jobs : List (K × UInt64)) : (ofJobs jobs).Found := by
  intro x hx hadd
  obtain ⟨job, -, rfl⟩ := mem_map.mp hx
  cases hadd

theorem pending_ofJobs (jobs : List (K × UInt64)) : (ofJobs jobs).pending k = totalWeight jobs k := by
  unfold pending ofJobs totalWeight
  rw [map_map]
  congr 1
  refine map_congr_left fun job _ => ?_
  simp [AggregateInstance.pending]

theorem pending_of_finished (h : s.Finished) : s.pending k = 0 := by
  refine sum_eq_zero fun n hn => ?_
  obtain ⟨x, hx, rfl⟩ := mem_map.mp hn
  simp [AggregateInstance.pending, h x hx]

theorem Found.step (h : s.Found) (i : ℕ) : (s.step i).Found := by
  unfold Aggregate.step
  cases hi : s.instances[i]? with
  | none => exact h
  | some x =>
    intro y hy
    rcases mem_or_eq_of_mem_set hy with hy | rfl
    · exact fun hadd => AggregateInstance.isSome_next (h y hy hadd)
    · exact AggregateInstance.found_next

theorem pending_set {i : ℕ} {x : AggregateInstance K} (hi : s.instances[i]? = some x) (y : AggregateInstance K) :
    ((s.instances.set i y).map (·.pending k)).sum + x.pending k = s.pending k + y.pending k := by
  obtain ⟨l₁, l₂, hl, hset, -⟩ := set_split hi
  unfold pending
  rw [hset, hl]
  simp only [map_append, map_cons, sum_append, sum_cons]
  omega

theorem pending_step_le (i : ℕ) : (s.step i).pending k + s.lossAt k i ≤ s.pending k := by
  unfold step lossAt
  cases hi : s.instances[i]? with
  | none => exact Nat.le_refl _
  | some x =>
    have hset := pending_set k hi (x.next s.values).2
    have hle : (x.next s.values).2.pending k + x.loss s.values k ≤ x.pending k :=
      AggregateInstance.pending_add_loss_le k
    show ((s.instances.set i (x.next s.values).2).map (·.pending k)).sum + x.loss s.values k ≤ s.pending k
    omega

theorem step_modEq (h : s.Found) (i : ℕ) :
    (s.step i).stored k + (s.step i).pending k + s.lossAt k i ≡ s.stored k + s.pending k [MOD 2 ^ 64] := by
  unfold step lossAt
  cases hi : s.instances[i]? with
  | none => exact Nat.ModEq.rfl
  | some x =>
    have hset := pending_set k hi (x.next s.values).2
    have hnext := AggregateInstance.next_modEq k (h x (mem_of_getElem? hi))
    show (((x.next s.values).1 k).getD 0).toNat + ((s.instances.set i (x.next s.values).2).map (·.pending k)).sum +
      x.loss s.values k ≡ s.stored k + s.pending k [MOD 2 ^ 64]
    refine Nat.ModEq.add_right_cancel' (x.pending k) ?_
    have hleft : (((x.next s.values).1 k).getD 0).toNat +
        ((s.instances.set i (x.next s.values).2).map (·.pending k)).sum + x.loss s.values k + x.pending k =
        (((x.next s.values).1 k).getD 0).toNat + (x.next s.values).2.pending k + x.loss s.values k + s.pending k := by
      omega
    have hright : s.stored k + s.pending k + x.pending k = ((s.values k).getD 0).toNat + x.pending k + s.pending k := by
      unfold stored
      omega
    rw [hleft, hright]
    exact Nat.ModEq.add_right _ hnext

/-! ## Runs -/

theorem lost_add_pending_le (order : List ℕ) : lost k s order + (order.foldl step s).pending k ≤ s.pending k := by
  induction order generalizing s with
  | nil => exact Nat.le_of_eq (Nat.zero_add _)
  | cons i order ih =>
    have hstep := pending_step_le k (s := s) i
    have hrest := ih (s := s.step i)
    simp only [lost, foldl_cons]
    omega

theorem run_modEq (h : s.Found) (order : List ℕ) :
    (order.foldl step s).stored k + (order.foldl step s).pending k + lost k s order ≡
      s.stored k + s.pending k [MOD 2 ^ 64] := by
  induction order generalizing s with
  | nil => exact Nat.ModEq.rfl
  | cons i order ih =>
    have hrest := ih (h.step i)
    have hstep := step_modEq k h i
    simp only [lost, foldl_cons]
    calc
      _ = (order.foldl step (s.step i)).stored k + (order.foldl step (s.step i)).pending k +
            lost k (s.step i) order + s.lossAt k i := by omega
      _ ≡ (s.step i).stored k + (s.step i).pending k + s.lossAt k i [MOD 2 ^ 64] := hrest.add_right _
      _ ≡ _ [MOD 2 ^ 64] := hstep

variable (s) in
/-- The next operation of the `i`-th instance is not an insert that is refused, or there is nothing to be
lost. -/
def Unrefused (i : ℕ) : Prop :=
  ∀ x ∈ s.instances[i]?, x.phase = .insert → (s.values x.key).isSome → x.weight = 0

instance (s : Aggregate K) (i : ℕ) : Decidable (s.Unrefused i) :=
  inferInstanceAs (Decidable (∀ x ∈ s.instances[i]?, x.phase = .insert → (s.values x.key).isSome → x.weight = 0))

theorem lossAt_eq_zero_iff (i : ℕ) : (∀ k, s.lossAt k i = 0) ↔ s.Unrefused i := by
  unfold lossAt Unrefused
  cases s.instances[i]? with
  | none => simp
  | some x =>
    constructor
    · intro h y hy hinsert hsome
      obtain rfl : x = y := Option.some.inj hy
      have hkey := h x.key
      dsimp only [AggregateInstance.loss] at hkey
      rw [if_pos ⟨hinsert, hsome, rfl⟩] at hkey
      exact UInt64.toNat_inj.mp hkey
    · intro h k
      dsimp only [AggregateInstance.loss]
      split
      · next hloss =>
          rw [h x rfl hloss.1 hloss.2.1]
          rfl
      · rfl

theorem lost_eq_zero_iff (order : List ℕ) : (∀ k, lost k s order = 0) ↔ Along step Unrefused s order := by
  induction order generalizing s with
  | nil => simp [lost, Along]
  | cons i order ih =>
    simp only [lost, Along, Nat.add_eq_zero_iff, forall_and]
    rw [lossAt_eq_zero_iff, ih]

/-- When all instances are finished, the values are what was to be added, exactly if no insert was refused
and the totals fit. -/
theorem stored_eq_iff (jobs : List (K × UInt64)) (order : List ℕ) (h : (order.foldl step (ofJobs jobs)).Finished) :
    (∀ k, (order.foldl step (ofJobs jobs)).stored k = totalWeight jobs k) ↔
      (∀ k, totalWeight jobs k < 2 ^ 64) ∧ Along step Unrefused (ofJobs jobs) order := by
  have hmod : ∀ k, (order.foldl step (ofJobs jobs)).stored k + lost k (ofJobs jobs) order ≡
      totalWeight jobs k [MOD 2 ^ 64] := by
    intro k
    have hrun := run_modEq k (found_ofJobs jobs) order
    rw [pending_of_finished k h, pending_ofJobs] at hrun
    have hempty : (ofJobs jobs).stored k = 0 := rfl
    rw [hempty, Nat.zero_add, Nat.add_zero] at hrun
    exact hrun
  have hle : ∀ k, lost k (ofJobs jobs) order ≤ totalWeight jobs k := by
    intro k
    have hrun := lost_add_pending_le k (s := ofJobs jobs) order
    rw [pending_ofJobs] at hrun
    exact Nat.le_trans (Nat.le_add_right _ _) hrun
  have hstored : ∀ k, (order.foldl step (ofJobs jobs)).stored k < 2 ^ 64 := fun k => UInt64.toNat_lt _
  rw [← lost_eq_zero_iff]
  constructor
  · intro heq
    have hfits : ∀ k, totalWeight jobs k < 2 ^ 64 := fun k => heq k ▸ hstored k
    refine ⟨hfits, fun k => ?_⟩
    have hk := hmod k
    rw [heq k] at hk
    have hzero : lost k (ofJobs jobs) order ≡ 0 [MOD 2 ^ 64] := Nat.ModEq.add_left_cancel' (totalWeight jobs k) hk
    exact Nat.ModEq.eq_of_lt_of_lt hzero (Nat.lt_of_le_of_lt (hle k) (hfits k)) (Nat.two_pow_pos 64)
  · rintro ⟨hfits, hlost⟩ k
    have hk := hmod k
    rw [hlost k, Nat.add_zero] at hk
    exact Nat.ModEq.eq_of_lt_of_lt hk (hstored k) (hfits k)

end Aggregate

/-! ## The two programs -/

/-- What instances of `profile` have to add. -/
def profileJobs (cfg : ProfileConfig) (samples : List ProfileSeen) : List (SampleKey × UInt64) :=
  (samples.filterMap (profileKey cfg)).map fun key => (key, 1)

/-- What a run of `handle_sched_switch` works on. -/
structure OffcpuSwitch where
  prev : Task
  next : Task
  seen : OffcpuSeen
  start : StartKey → Option StartVal

/-- What instances of `handle_sched_switch` have to add. -/
def offcpuJobs (cfg : OffcpuConfig) (switches : List OffcpuSwitch) : List (OffcpuKey × UInt64) :=
  switches.filterMap fun w => (handleSchedSwitch cfg w.prev w.next w.seen w.start).2

theorem totalWeight_profileJobs (cfg : ProfileConfig) (samples : List ProfileSeen) (k : SampleKey) :
    totalWeight (profileJobs cfg samples) k = (samples.filterMap (profileKey cfg)).count k := by
  unfold totalWeight profileJobs
  induction samples.filterMap (profileKey cfg) with
  | nil => rfl
  | cons key keys ih =>
    simp only [map_cons, sum_cons, count_cons, ih, beq_iff_eq]
    rw [Nat.add_comm]
    rfl

open Aggregate in
/-- In every complete run, however the instances interleave, the map has the number of samples of every key,
and the sum of the off-CPU time, exactly if no insert of something was refused and the totals fit. -/
theorem aggregation_complete_iff (pcfg : ProfileConfig) (ocfg : OffcpuConfig) :
    (∀ (samples : List ProfileSeen) (order : List ℕ), (order.foldl step (ofJobs (profileJobs pcfg samples))).Finished →
        ((∀ k, (order.foldl step (ofJobs (profileJobs pcfg samples))).stored k =
            (samples.filterMap (profileKey pcfg)).count k) ↔
          (∀ k, (samples.filterMap (profileKey pcfg)).count k < 2 ^ 64) ∧
            Along step Unrefused (ofJobs (profileJobs pcfg samples)) order)) ∧
    (∀ (switches : List OffcpuSwitch) (order : List ℕ),
      (order.foldl step (ofJobs (offcpuJobs ocfg switches))).Finished →
        ((∀ k, (order.foldl step (ofJobs (offcpuJobs ocfg switches))).stored k =
            totalWeight (offcpuJobs ocfg switches) k) ↔
          (∀ k, totalWeight (offcpuJobs ocfg switches) k < 2 ^ 64) ∧
            Along step Unrefused (ofJobs (offcpuJobs ocfg switches)) order)) := by
  refine ⟨fun samples order h => ?_, fun switches order h => stored_eq_iff _ order h⟩
  have hiff := stored_eq_iff _ order h
  simp only [totalWeight_profileJobs] at hiff
  exact hiff

def everyProcess : ProfileConfig := { systemWide := true, kernelStacksEnabled := false, pids := fun _ => none }

def everyTask : OffcpuConfig := { systemWide := true, kernelStacksEnabled := false, pidFilter := fun _ => false }

def sampleOfSeven : ProfileSeen := { tgid := 7, task := some 0, kernStackId := 0, userStackId := 3 }

def backAfterFive (pid : UInt32) : OffcpuSwitch :=
  { prev := { pid := 0, tgid := 0, flags := 0 }
    next := { pid := pid, tgid := 7, flags := 0 }
    seen := { now := 15, kernStackId := 0, userStackId := 0 }
    start := fun _ => some { timestamp := 10, kernStack := -1, userStack := 3 } }

open Aggregate in
theorem aggregation_complete_backAfterFive :
    ∀ k, ([0, 0, 1, 1].foldl step (ofJobs (offcpuJobs everyTask [backAfterFive 7, backAfterFive 8]))).stored k =
      totalWeight (offcpuJobs everyTask [backAfterFive 7, backAfterFive 8]) k := by
  have hjobs : offcpuJobs everyTask [backAfterFive 7, backAfterFive 8] =
      [({ pid := 7, kernStack := -1, userStack := 3 }, 5), ({ pid := 7, kernStack := -1, userStack := 3 }, 5)] := rfl
  refine ((aggregation_complete_iff everyProcess everyTask).2 _ [0, 0, 1, 1] ?_).mpr ⟨fun k => ?_, ?_⟩
  · unfold Finished
    decide
  · rw [hjobs]
    simp only [totalWeight, map_cons, map_nil, sum_cons, sum_nil]
    split <;> decide
  · decide

open Aggregate in
/-- Two instances miss the same key, and one of the inserts is refused. -/
theorem not_complete_missedTwice :
    (([0, 1, 0, 1].foldl step (ofJobs (profileJobs everyProcess [sampleOfSeven, sampleOfSeven]))).Finished ∧
      ([0, 1, 0, 1].foldl step (ofJobs (profileJobs everyProcess [sampleOfSeven, sampleOfSeven]))).stored
        { pid := 7, flags := 0, kernStack := -1, userStack := 3 } = 1 ∧
      ([sampleOfSeven, sampleOfSeven].filterMap (profileKey everyProcess)).count
        { pid := 7, flags := 0, kernStack := -1, userStack := 3 } = 2) ∧
    ([0, 1, 0, 1].foldl step (ofJobs (offcpuJobs everyTask [backAfterFive 7, backAfterFive 8]))).Finished ∧
      ([0, 1, 0, 1].foldl step (ofJobs (offcpuJobs everyTask [backAfterFive 7, backAfterFive 8]))).stored
        { pid := 7, kernStack := -1, userStack := 3 } = 5 ∧
      totalWeight (offcpuJobs everyTask [backAfterFive 7, backAfterFive 8])
        { pid := 7, kernStack := -1, userStack := 3 } = 10 := by
  unfold Finished
  refine ⟨⟨by decide, by decide, by decide⟩, by decide, by decide, by decide⟩

end PerfAgent.Bpf
