import Mathlib.Algebra.Order.Ring.Int
import PerfAgent.Lib.Machine

/-!
# Vendor time and monotonic time

The clock fit of `shim/core/clock.h`, which the timer thread samples anew, and `handle_kernel` of
`shim/nvidia/cupti_adapter.cc`, which converts the two times of an activity record with it.  Each
of the two conversions takes the clock's mutex for itself, and so does a resample; every step below
that reads or writes the clock is one time that the mutex is held.  Signed overflow is taken to
wrap.
-/

namespace PerfAgent.Shim

open Function

/-- Offset movement beyond this between consecutive samples is a step, not slew. -/
def stepThresholdNs : Int64 := 1000000

structure ClockFit where
  offset : Int64 := 0
  valid : Bool := false
  steps : Nat := 0
deriving DecidableEq

namespace ClockFit

def resample (c : ClockFit) (vendorNs monoNs : UInt64) : ClockFit :=
  let offset := vendorNs.toInt64 - monoNs.toInt64
  let delta := offset - c.offset
  let mag := if delta < 0 then -delta else delta
  { offset := offset
    valid := true
    steps := if c.valid = true ∧ mag > stepThresholdNs then c.steps + 1 else c.steps }

def toMonotonic (c : ClockFit) (vendorNs : UInt64) : UInt64 :=
  if c.valid then (vendorNs.toInt64 - c.offset).toUInt64 else 0

/-- `vendor_to_mono`; `none` if the fit has never been seeded. -/
def vendorToMono (c : ClockFit) (vendorNs : UInt64) : Option UInt64 :=
  if c.valid then some (c.toMonotonic vendorNs) else none

end ClockFit

/-- What `handle_kernel` reads of an activity record; `finish` is its `end`. -/
structure KernelActivity where
  start : UInt64
  finish : UInt64
  graphId : UInt32 := 0
deriving DecidableEq

structure ClockedExec where
  record : KernelActivity
  startNs : UInt64
  endNs : UInt64
deriving DecidableEq

/-- Where a worker thread is in `handle_kernel`. -/
inductive HandleStage where
  | idle
  | /-- Neither time has been converted. -/ taken (k : KernelActivity)
  | /-- The start has been. -/ started (k : KernelActivity) (startNs : UInt64)
deriving DecidableEq

structure ClockSystem (Tid : Type) where
  clock : ClockFit := {}
  stage : Tid → HandleStage := fun _ => .idle
  /-- The last one first. -/
  emitted : List ClockedExec := []
  execFromGraph : Nat := 0
  execUnattached : Nat := 0
  execNoTime : Nat := 0
  execNoClock : Nat := 0
  /-- By how much the vendor clock was ahead at each resample, the last one first.  No step reads it. -/
  offsets : List Int := []

namespace ClockSystem

variable {Tid : Type} [DecidableEq Tid]

inductive Action (Tid : Type) where
  | resample (vendorNs monoNs : UInt64)
  | /-- A record comes in; the probe is attached or it is not. -/
    handle (t : Tid) (k : KernelActivity) (attached : Bool)
  | convertStart (t : Tid)
  | convertEnd (t : Tid)

def setStage (s : ClockSystem Tid) (t : Tid) (stage : HandleStage) : ClockSystem Tid :=
  { s with stage := update s.stage t stage }

def noClock (s : ClockSystem Tid) (t : Tid) : ClockSystem Tid :=
  { s.setStage t .idle with execNoClock := s.execNoClock + 1 }

def emit (s : ClockSystem Tid) (t : Tid) (e : ClockedExec) : ClockSystem Tid :=
  { s.setStage t .idle with emitted := e :: s.emitted }

def countGraph (s : ClockSystem Tid) (k : KernelActivity) : ClockSystem Tid :=
  { s with execFromGraph := if k.graphId ≠ 0 then s.execFromGraph + 1 else s.execFromGraph }

/-- `handle_kernel` up to the first conversion. -/
def handle (s : ClockSystem Tid) (t : Tid) (k : KernelActivity) (attached : Bool) : ClockSystem Tid :=
  let s := s.countGraph k
  if attached = false then { s with execUnattached := s.execUnattached + 1 }
  else if k.start = 0 ∧ k.finish = 0 then { s with execNoTime := s.execNoTime + 1 }
  else s.setStage t (.taken k)

def step (s : ClockSystem Tid) : Action Tid → Option (ClockSystem Tid)
  | .resample vendorNs monoNs =>
    some
      { s with
        clock := s.clock.resample vendorNs monoNs
        offsets := ((vendorNs.toNat : Int) - monoNs.toNat) :: s.offsets }
  | .handle t k attached =>
    match s.stage t with
    | .idle => some (s.handle t k attached)
    | _ => none
  | .convertStart t =>
    match s.stage t with
    | .taken k =>
      match s.clock.vendorToMono k.start with
      | some startNs => some (s.setStage t (.started k startNs))
      | none => some (s.noClock t)
    | _ => none
  | .convertEnd t =>
    match s.stage t with
    | .started k startNs =>
      match s.clock.vendorToMono k.finish with
      | some endNs => some (s.emit t { record := k, startNs := startNs, endNs := endNs })
      | none => some (s.noClock t)
    | _ => none

end ClockSystem

/-! ## What the clock should keep -/

/-- The execution is as long as the record says, and does not end before it starts if the record
does not. -/
structure ClockedExec.Keeps (e : ClockedExec) : Prop where
  duration : (e.endNs.toNat : Int) - e.startNs.toNat = e.record.finish.toNat - e.record.start.toNat
  ordered : e.record.start ≤ e.record.finish → e.startNs ≤ e.endNs

/-- How many of the samples are further than the threshold from the one before. -/
def stepsIn : List Int → Nat
  | o :: o' :: os => (if stepThresholdNs.toInt < (o - o').natAbs then 1 else 0) + stepsIn (o' :: os)
  | _ => 0

namespace ClockSystem

variable {Tid : Type}

structure Preserves (s : ClockSystem Tid) : Prop where
  durations : ∀ e ∈ s.emitted, e.Keeps
  steps : s.clock.steps = stepsIn s.offsets

def Told (d : Int) : Prop :=
  d.natAbs ≤ stepThresholdNs.toInt ∨ stepThresholdNs.toInt < (d.bmod (2 ^ 64)).natAbs ∧ d.bmod (2 ^ 64) ≠ -2 ^ 63

/-- Both times of the record are in the same turn of a 64-bit counter when the offset is taken from
them. -/
def SameTurn (c : ClockFit) (k : KernelActivity) : Prop :=
  ((k.start.toNat : Int) - c.offset.toInt) / 2 ^ 64 = ((k.finish.toNat : Int) - c.offset.toInt) / 2 ^ 64

/-- At the conversion of an end the clock still converts the start to what it has been converted to,
and neither time alone leaves the 64 bits; a resample does not move the offset by too much. -/
def Meets (s : ClockSystem Tid) : Action Tid → Prop
  | .resample vendorNs monoNs => ∀ o ∈ s.offsets.head?, Told ((vendorNs.toNat : Int) - monoNs.toNat - o)
  | .convertEnd t =>
    match s.stage t with
    | .started k startNs => s.clock.toMonotonic k.start = startNs ∧ SameTurn s.clock k
    | _ => True
  | _ => True

end ClockSystem

/-! ## One conversion -/

theorem toInt_eq_bmod (x : Int64) : x.toInt = (x.toUInt64.toNat : Int).bmod (2 ^ 64) :=
  BitVec.toInt_eq_toNat_bmod _

namespace ClockFit

variable {c : ClockFit}

theorem toMonotonic_toNat (hvalid : c.valid = true) (vendorNs : UInt64) :
    ((c.toMonotonic vendorNs).toNat : Int) = ((vendorNs.toNat : Int) - c.offset.toInt) % 2 ^ 64 := by
  have hsub : (vendorNs.toInt64 - c.offset).toUInt64 = vendorNs - c.offset.toUInt64 := rfl
  have hlt := c.offset.toUInt64.toNat_lt
  have hmod : (c.offset.toInt) % 2 ^ 64 = c.offset.toUInt64.toNat % 2 ^ 64 := by
    rw [toInt_eq_bmod]
    exact Int.bmod_emod
  rw [toMonotonic, if_pos hvalid, hsub, UInt64.toNat_sub, Int.sub_emod, hmod]
  omega

/-- A record that is emitted with the start converted to `startNs` is as long as it says exactly if
the clock converts the start to that and both times are in one turn. -/
theorem keeps_iff (hvalid : c.valid = true) {k : KernelActivity} {startNs : UInt64} :
    ClockedExec.Keeps { record := k, startNs := startNs, endNs := c.toMonotonic k.finish } ↔
      c.toMonotonic k.start = startNs ∧ ClockSystem.SameTurn c k := by
  have hstart := toMonotonic_toNat hvalid k.start
  have hfinish := toMonotonic_toNat hvalid k.finish
  have hlt := startNs.toNat_lt
  unfold ClockSystem.SameTurn
  constructor
  · intro h
    have hduration := h.duration
    dsimp only at hduration
    refine ⟨UInt64.toNat_inj.mp ?_, ?_⟩
    · omega
    · omega
  · rintro ⟨rfl, hturn⟩
    have hduration : ((c.toMonotonic k.finish).toNat : Int) - (c.toMonotonic k.start).toNat =
        k.finish.toNat - k.start.toNat := by omega
    refine ⟨hduration, fun hle => ?_⟩
    have hle : k.start.toNat ≤ k.finish.toNat := hle
    show (c.toMonotonic k.start).toNat ≤ (c.toMonotonic k.finish).toNat
    omega

/-- The offset that the clock has is the low 64 bits of `o`. -/
def Samples (c : ClockFit) (o : Int) : Prop := c.valid = true ∧ c.offset.toInt = o.bmod (2 ^ 64)

theorem samples_resample (c : ClockFit) (vendorNs monoNs : UInt64) :
    (c.resample vendorNs monoNs).Samples ((vendorNs.toNat : Int) - monoNs.toNat) := by
  refine ⟨rfl, ?_⟩
  show (vendorNs.toInt64 - monoNs.toInt64).toInt = _
  have hvendor : vendorNs.toInt64.toInt = (vendorNs.toNat : Int).bmod (2 ^ 64) := toInt_eq_bmod _
  have hmono : monoNs.toInt64.toInt = (monoNs.toNat : Int).bmod (2 ^ 64) := toInt_eq_bmod _
  rw [Int64.toInt_sub, hvendor, hmono, ← Int.sub_bmod]

theorem gt_threshold_iff (delta : Int64) : (if delta < 0 then -delta else delta) > stepThresholdNs ↔
      stepThresholdNs.toInt < delta.toInt.natAbs ∧ delta.toInt ≠ -2 ^ 63 := by
  have hlo := delta.le_toInt
  have hhi := delta.toInt_lt
  have hthreshold : stepThresholdNs.toInt = 1000000 := rfl
  rw [gt_iff_lt, Int64.lt_iff_toInt_lt]
  split
  · next hneg =>
    have hneg : delta.toInt < 0 := Int64.lt_iff_toInt_lt.mp hneg
    rw [Int64.toInt_neg, hthreshold]
    by_cases hlowest : delta.toInt = -2 ^ 63
    · rw [hlowest]
      decide
    · rw [Int.bmod_eq_of_le (by omega) (by omega)]
      omega
  · next hpos =>
    have hpos : ¬delta.toInt < 0 := fun h => hpos (Int64.lt_iff_toInt_lt.mpr h)
    omega

theorem steps_resample {o : Int} (h : c.Samples o) (vendorNs monoNs : UInt64) : (c.resample vendorNs monoNs).steps =
      if stepThresholdNs.toInt < (((vendorNs.toNat : Int) - monoNs.toNat - o).bmod (2 ^ 64)).natAbs ∧
        ((vendorNs.toNat : Int) - monoNs.toNat - o).bmod (2 ^ 64) ≠ -2 ^ 63 then c.steps + 1 else c.steps := by
  have hdelta : (vendorNs.toInt64 - monoNs.toInt64 - c.offset).toInt =
      ((vendorNs.toNat : Int) - monoNs.toNat - o).bmod (2 ^ 64) := by
    have hoffset := (samples_resample c vendorNs monoNs).2
    have hoffset : (vendorNs.toInt64 - monoNs.toInt64).toInt = _ := hoffset
    rw [Int64.toInt_sub, hoffset, h.2, ← Int.sub_bmod]
  refine if_congr ?_ rfl rfl
  rw [gt_threshold_iff, hdelta]
  exact and_iff_right h.1

end ClockFit

/-! ## Runs -/

namespace ClockSystem

variable {Tid : Type}

structure Ok (s : ClockSystem Tid) : Prop where
  sampled : ∀ o ∈ s.offsets.head?, s.clock.Samples o
  unsampled : s.offsets = [] → s.clock = {}
  started : ∀ t k startNs, s.stage t = .started k startNs → s.clock.valid = true
  steps_le : s.clock.steps ≤ stepsIn s.offsets

theorem Ok.initial : Ok ({} : ClockSystem Tid) := by
  refine ⟨fun _ h => (Option.not_mem_none _ h).elim, fun _ => rfl, ?_, Nat.le_refl _⟩
  exact fun _ _ _ h => by cases h

theorem preserves_initial : Preserves ({} : ClockSystem Tid) := by
  refine ⟨?_, rfl⟩
  exact fun _ h => by cases h

theorem lt_of_told {d : Int} (h : stepThresholdNs.toInt < (d.bmod (2 ^ 64)).natAbs) :
    stepThresholdNs.toInt < d.natAbs := by
  have hthreshold : stepThresholdNs.toInt = 1000000 := rfl
  by_contra hnot
  rw [hthreshold] at h hnot
  rw [Int.bmod_eq_of_le (by omega) (by omega)] at h
  exact hnot h

/-- A resample counts at most what it should, and exactly that if the step of the offset can be told. -/
theorem Ok.resample {s : ClockSystem Tid} (h : s.Ok) (vendorNs monoNs : UInt64) :
    (s.clock.resample vendorNs monoNs).steps ≤ stepsIn (((vendorNs.toNat : Int) - monoNs.toNat) :: s.offsets) ∧
      ((s.clock.resample vendorNs monoNs).steps = stepsIn (((vendorNs.toNat : Int) - monoNs.toNat) :: s.offsets) ↔
        s.clock.steps = stepsIn s.offsets ∧
          ∀ o ∈ s.offsets.head?, Told ((vendorNs.toNat : Int) - monoNs.toNat - o)) := by
  have hle := h.steps_le
  cases hoffsets : s.offsets with
  | nil =>
    have hclock := h.unsampled hoffsets
    rw [hclock]
    exact ⟨Nat.le_refl _, fun _ => ⟨rfl, fun _ ho => by cases ho⟩, fun _ => rfl⟩
  | cons o os =>
    have hsamples : s.clock.Samples o := h.sampled o (by rw [hoffsets]; rfl)
    have hsteps : ∀ o' : Int, stepsIn (o' :: o :: os) =
        (if stepThresholdNs.toInt < (o' - o).natAbs then 1 else 0) + stepsIn (o :: os) := fun _ => rfl
    have hhead : (∀ o' ∈ (o :: os).head?, Told ((vendorNs.toNat : Int) - monoNs.toNat - o')) ↔
        Told ((vendorNs.toNat : Int) - monoNs.toNat - o) :=
      ⟨fun hall => hall o rfl, fun htold o' ho' => by cases ho'; exact htold⟩
    rw [hoffsets] at hle
    rw [ClockFit.steps_resample hsamples, hsteps, hhead]
    generalize (vendorNs.toNat : Int) - monoNs.toNat - o = d
    by_cases hseen : stepThresholdNs.toInt < (d.bmod (2 ^ 64)).natAbs ∧ d.bmod (2 ^ 64) ≠ -2 ^ 63
    · have htold : Told d := .inr hseen
      rw [if_pos hseen, if_pos (lt_of_told hseen.1)]
      exact ⟨by omega, fun h => ⟨by omega, htold⟩, fun h => by omega⟩
    · rw [if_neg hseen]
      split
      · next hstep =>
        have hnot : ¬Told d := fun htold => htold.elim (fun h => absurd hstep (Int.not_lt.mpr h)) hseen
        exact ⟨by omega, fun h => by omega, fun h => absurd h.2 hnot⟩
      · next hnear =>
        have htold : Told d := .inl (Int.not_lt.mp hnear)
        exact ⟨by omega, fun h => ⟨by omega, htold⟩, fun h => by omega⟩

theorem Ok.of_stage {s s' : ClockSystem Tid} (h : s.Ok) (hclock : s'.clock = s.clock)
    (hoffsets : s'.offsets = s.offsets)
    (hstarted : ∀ t k startNs, s'.stage t = .started k startNs →
      s.stage t = .started k startNs ∨ s.clock.valid = true) : s'.Ok := by
  refine ⟨?_, ?_, ?_, ?_⟩
  · rw [hoffsets, hclock]
    exact h.sampled
  · rw [hoffsets, hclock]
    exact h.unsampled
  · rw [hclock]
    intro t k startNs ht
    exact (hstarted t k startNs ht).elim (h.started t k startNs) id
  · rw [hoffsets, hclock]
    exact h.steps_le

theorem preserves_congr {s s' : ClockSystem Tid} (hclock : s'.clock = s.clock) (hoffsets : s'.offsets = s.offsets)
    (hemitted : s'.emitted = s.emitted) : s'.Preserves ↔ s.Preserves := by
  constructor
  · rintro ⟨hdurations, hsteps⟩
    rw [hemitted] at hdurations
    rw [hclock, hoffsets] at hsteps
    exact ⟨hdurations, hsteps⟩
  · rintro ⟨hdurations, hsteps⟩
    rw [← hemitted] at hdurations
    rw [← hclock, ← hoffsets] at hsteps
    exact ⟨hdurations, hsteps⟩

variable [DecidableEq Tid]

theorem started_of_update {s : ClockSystem Tid} {t : Tid} {stage : HandleStage}
    (hstage : ∀ k startNs, stage = .started k startNs → s.clock.valid = true) :
    ∀ t' k startNs, update s.stage t stage t' = .started k startNs →
      s.stage t' = .started k startNs ∨ s.clock.valid = true := by
  intro t' k startNs ht'
  by_cases heq : t' = t
  · subst heq
    rw [update_self] at ht'
    exact .inr (hstage k startNs ht')
  · rw [update_of_ne heq] at ht'
    exact .inl ht'

theorem handle_frame (s : ClockSystem Tid) (t : Tid) (k : KernelActivity) (attached : Bool) :
    (s.handle t k attached).clock = s.clock ∧ (s.handle t k attached).offsets = s.offsets ∧
      (s.handle t k attached).emitted = s.emitted ∧ ((s.handle t k attached).stage = s.stage ∨
          (s.handle t k attached).stage = update s.stage t (.taken k)) := by
  unfold handle
  split
  · exact ⟨rfl, rfl, rfl, .inl rfl⟩
  · split
    · exact ⟨rfl, rfl, rfl, .inl rfl⟩
    · exact ⟨rfl, rfl, rfl, .inr rfl⟩

theorem Ok.step {s s' : ClockSystem Tid} (h : s.Ok) {a : Action Tid} (ha : s.step a = some s') :
    s'.Ok ∧ (s'.Preserves ↔ s.Preserves ∧ s.Meets a) := by
  cases a with
  | resample vendorNs monoNs =>
    cases ha
    obtain ⟨hle, hiff⟩ := h.resample vendorNs monoNs
    refine ⟨⟨?_, ?_, fun _ _ _ _ => rfl, hle⟩, ?_⟩
    · rintro o ⟨⟩
      exact ClockFit.samples_resample _ _ _
    · intro hnil
      cases hnil
    · constructor
      · rintro ⟨hdurations, hsteps⟩
        exact ⟨⟨hdurations, (hiff.mp hsteps).1⟩, (hiff.mp hsteps).2⟩
      · rintro ⟨⟨hdurations, hsteps⟩, hmeets⟩
        exact ⟨hdurations, hiff.mpr ⟨hsteps, hmeets⟩⟩
  | handle t k attached =>
    rw [ClockSystem.step] at ha
    split at ha
    · cases ha
      obtain ⟨hclock, hoffsets, hemitted, hstage⟩ := s.handle_frame t k attached
      refine ⟨h.of_stage hclock hoffsets ?_, ?_⟩
      · rcases hstage with hstage | hstage
        · rw [hstage]
          exact fun _ _ _ ht => .inl ht
        · rw [hstage]
          exact started_of_update fun _ _ h => by cases h
      · rw [preserves_congr hclock hoffsets hemitted]
        exact (and_iff_left trivial).symm
    · cases ha
  | convertStart t =>
    have hmeets : s.Meets (.convertStart t) := trivial
    rw [ClockSystem.step] at ha
    split at ha
    · next k hk =>
      unfold ClockFit.vendorToMono at ha
      by_cases hvalid : s.clock.valid = true
      · rw [if_pos hvalid] at ha
        cases ha
        refine ⟨h.of_stage rfl rfl (started_of_update fun _ _ _ => hvalid), ?_⟩
        rw [and_iff_left hmeets]
        exact preserves_congr rfl rfl rfl
      · rw [if_neg hvalid] at ha
        cases ha
        refine ⟨h.of_stage rfl rfl (started_of_update fun _ _ h => by cases h), ?_⟩
        rw [and_iff_left hmeets]
        exact preserves_congr rfl rfl rfl
    · cases ha
  | convertEnd t =>
    rw [ClockSystem.step] at ha
    split at ha
    · next k startNs hstage =>
      have hvalid := h.started t k startNs hstage
      unfold ClockFit.vendorToMono at ha
      rw [if_pos hvalid] at ha
      cases ha
      refine ⟨h.of_stage rfl rfl (started_of_update fun _ _ h => by cases h), ?_⟩
      have hmeets : s.Meets (.convertEnd t) ↔ s.clock.toMonotonic k.start = startNs ∧ SameTurn s.clock k := by
        rw [Meets, hstage]
      rw [hmeets, ← ClockFit.keeps_iff hvalid]
      constructor
      · rintro ⟨hdurations, hsteps⟩
        obtain ⟨hlast, hdurations⟩ := List.forall_mem_cons.mp hdurations
        exact ⟨⟨hdurations, hsteps⟩, hlast⟩
      · rintro ⟨⟨hdurations, hsteps⟩, hlast⟩
        exact ⟨List.forall_mem_cons.mpr ⟨hlast, hdurations⟩, hsteps⟩
    · cases ha

/-- In every run the executions are as long as their records say and the steps are counted exactly
if no resample comes between the two conversions of a record and moves the offset, no conversion
leaves the 64 bits and no resample moves the offset by too much. -/
theorem preserves_iff {s : ClockSystem Tid} {as : List (Action Tid)}
    (h : Run (fun s a s' => ClockSystem.step s a = some s') {} as s) :
    s.Preserves ↔ Run (fun s a s' => Meets s a ∧ ClockSystem.step s a = some s') {} as s :=
  h.iff_guarded (I := Ok) (G := Preserves) (P := Meets) .initial preserves_initial fun _ _ _ hs ha => hs.step ha

def oneKernel : List (Action Unit) :=
  [.resample 1000000 0, .handle () { start := 2000000, finish := 2000500 } true, .convertStart (), .convertEnd ()]

theorem preserves_iff_oneKernel :
    ∃ s, Run (fun s a s' => ClockSystem.step s a = some s') {} oneKernel s ∧ s.emitted.length = 1 ∧
      (s.Preserves ↔ Run (fun s a s' => Meets s a ∧ ClockSystem.step s a = some s') {} oneKernel s) := by
  obtain ⟨s, hs, hp⟩ := @exists_run _ _ ClockSystem.step {} oneKernel
    (fun s => decide (s.emitted.length = 1)) (by decide)
  exact ⟨s, hs, of_decide_eq_true hp, preserves_iff hs⟩

/-- The same kernel, but between the two conversions the clock is sampled again and has been slewed by
600 ns. -/
def slewedBetween : List (Action Unit) :=
  [.resample 1000000 0, .handle () { start := 2000000, finish := 2000500 } true, .convertStart (),
    .resample 2001600 1001000, .convertEnd ()]

/-- The execution ends 100 ns before it starts. -/
theorem not_preserves : ¬∀ (as : List (Action Unit)) (s : ClockSystem Unit),
      Run (fun s a s' => ClockSystem.step s a = some s') {} as s → s.Preserves := by
  intro h
  obtain ⟨s, hs, hp⟩ := @exists_run _ _ ClockSystem.step {} slewedBetween (fun s => decide (s.emitted =
      [{ record := { start := 2000000, finish := 2000500 }, startNs := 1000000, endNs := 999900 }])) (by decide)
  have hkeeps := (h slewedBetween s hs).durations _ (by rw [of_decide_eq_true hp]; exact List.mem_cons_self)
  exact absurd (hkeeps.ordered (by decide)) (by decide)

end ClockSystem

end PerfAgent.Shim
