import PerfAgent.Lib.Machine

/-!
# The drain schedule, called with clock readings of any age

`core/pcdrain.h` decides when PC-sampling data is pulled.  Its two calls are critical sections of
one mutex, and their callers read the clock before they take it: the drain timer as the argument
of `due`, the application's threads as the argument of `force`, and `burst_close` of
`nvidia/cupti_adapter.cc` with a reading that its caller has taken.  A call is therefore one step
that carries some earlier reading of its thread.

The period is kept exactly in the runs in which no drain is recorded with a reading older than
the last one's (`Process.InOrder`).  An older reading gives `due` a difference that has wrapped
around, which is longer than any period in use, and either call moves the phase back.
-/

namespace PerfAgent.Shim

open List

inductive PCDrainReason
  | periodic
  | moduleUnload
  | rangeEnd
  | teardown
  deriving DecidableEq

structure PCDrainSchedule where
  periodNs : UInt64
  lastNs : UInt64 := 0
  drained : Bool := false
  periodic : UInt64 := 0
  unload : UInt64 := 0
  rangeEnd : UInt64 := 0
  teardown : UInt64 := 0
  coalesced : UInt64 := 0
  deriving DecidableEq

namespace PCDrainSchedule

variable (s : PCDrainSchedule)

def markLocked (nowNs : UInt64) : PCDrainSchedule :=
  { s with lastNs := nowNs, drained := true }

def Within (nowNs : UInt64) : Prop := s.drained = true ∧ nowNs - s.lastNs < s.periodNs

instance (nowNs : UInt64) : Decidable (s.Within nowNs) := inferInstanceAs (Decidable (_ ∧ _))

def due (nowNs : UInt64) : Bool × PCDrainSchedule :=
  if s.Within nowNs then
    (false, { s with coalesced := s.coalesced + 1 })
  else
    (true, { s.markLocked nowNs with periodic := s.periodic + 1 })

def force (nowNs : UInt64) (reason : PCDrainReason) : PCDrainSchedule :=
  match reason with
  | .moduleUnload => { s.markLocked nowNs with unload := s.unload + 1 }
  | .rangeEnd => { s.markLocked nowNs with rangeEnd := s.rangeEnd + 1 }
  | .teardown | .periodic => { s.markLocked nowNs with teardown := s.teardown + 1 }

def total : UInt64 := s.periodic + s.unload + s.rangeEnd + s.teardown

end PCDrainSchedule

inductive DrainCall
  | due (nowNs : UInt64)
  | force (nowNs : UInt64) (reason : PCDrainReason)
  deriving DecidableEq

namespace DrainCall

def nowNs : DrainCall → UInt64
  | due nowNs | force nowNs _ => nowNs

def forced : DrainCall → Bool
  | due _ => false
  | force .. => true

def reason? : DrainCall → Option PCDrainReason
  | due _ => none
  | force _ reason => some reason

/-- Make the call: whether the caller drains, and the schedule after it. -/
def on (s : PCDrainSchedule) : DrainCall → Bool × PCDrainSchedule
  | due nowNs => s.due nowNs
  | force nowNs reason => (true, s.force nowNs reason)

end DrainCall

/-- A call that has been made, whether its caller drains, and the phase it has left. -/
structure DrainAnswer where
  call : DrainCall
  drains : Bool
  phase : UInt64
  deriving DecidableEq

namespace DrainAnswer

/-- `due` has returned true. -/
def periodic (e : DrainAnswer) : Bool := !e.call.forced && e.drains

/-- A call that `due` has answered with true reads the clock a period or more after an earlier
drain. -/
def Spaced (periodNs : UInt64) (e e' : DrainAnswer) : Prop :=
  e.periodic = true → e'.drains = true → e'.call.nowNs.toNat + periodNs.toNat ≤ e.call.nowNs.toNat

end DrainAnswer

variable {periodNs : UInt64}

/-- The process: its clock, the readings that its threads have taken, the schedule, and the calls
answered so far, the last one first. -/
structure DrainProcess (T : Type*) where
  clock : UInt64 := 0
  took : List (T × UInt64) := []
  schedule : PCDrainSchedule
  answers : List DrainAnswer := []

namespace DrainProcess

variable {T : Type*}

inductive Action (T : Type*)
  | /-- Time passes. -/ tick (clock : UInt64)
  | /-- A thread reads the clock. -/ read (t : T)
  | /-- A thread calls the schedule. -/ call (t : T) (c : DrainCall)

def new (periodNs : UInt64) : DrainProcess T where
  schedule := { periodNs := periodNs }

def answer (s : DrainProcess T) (c : DrainCall) : DrainProcess T :=
  { s with
    schedule := (c.on s.schedule).2
    answers := ⟨c, (c.on s.schedule).1, (c.on s.schedule).2.lastNs⟩ :: s.answers }

def step [DecidableEq T] (s : DrainProcess T) : Action T → Option (DrainProcess T)
  | .tick clock => if s.clock ≤ clock then some { s with clock := clock } else none
  | .read t => some { s with took := (t, s.clock) :: s.took }
  | .call t c => if (t, c.nowNs) ∈ s.took then some (s.answer c) else none

/-- The schedule keeps its period: the drains of `due` are spaced, the phase has not moved back,
every forced drain is in one counter, and the total is of the periodic and the forced ones. -/
structure KeepsPeriod (periodNs : UInt64) (s : DrainProcess T) : Prop where
  spaced : s.answers.Pairwise (DrainAnswer.Spaced periodNs)
  phase : s.answers.Pairwise fun e e' => e'.phase ≤ e.phase
  periodic : s.schedule.periodic = .ofNat (s.answers.countP (·.periodic))
  unload : s.schedule.unload = .ofNat (s.answers.countP (·.call.reason? = some .moduleUnload))
  rangeEnd : s.schedule.rangeEnd = .ofNat (s.answers.countP (·.call.reason? = some .rangeEnd))
  teardown : s.schedule.teardown = .ofNat
    (s.answers.countP fun e => e.call.reason? = some .teardown ∨ e.call.reason? = some .periodic)
  total : s.schedule.total = s.schedule.periodic + .ofNat (s.answers.countP (·.call.forced))

/-- The reading that a drain would be recorded with is not older than the phase. -/
def InOrder (s : DrainProcess T) : Action T → Prop
  | .tick _ | .read _ => True
  | .call _ (.due nowNs) => s.schedule.lastNs ≤ nowNs ∨ s.schedule.Within nowNs
  | .call _ (.force nowNs _) => s.schedule.lastNs ≤ nowNs

instance (s : DrainProcess T) : DecidablePred s.InOrder
  | .tick _ | .read _ => .isTrue trivial
  | .call _ (.due _) => inferInstanceAs (Decidable (_ ∨ _))
  | .call _ (.force ..) => inferInstanceAs (Decidable (_ ≤ _))

/-! ## What a call does -/

theorem on_cases (s : PCDrainSchedule) (c : DrainCall) :
    (c.forced = false ∧ s.Within c.nowNs ∧ (c.on s).1 = false ∧ (c.on s).2.lastNs = s.lastNs ∧
      (c.on s).2.drained = s.drained) ∨
    ((c.forced = false → ¬s.Within c.nowNs) ∧ (c.on s).1 = true ∧ (c.on s).2.lastNs = c.nowNs ∧
      (c.on s).2.drained = true) := by
  cases c with
  | due nowNs =>
    by_cases hw : s.Within nowNs
    · have hdue : s.due nowNs = (false, { s with coalesced := s.coalesced + 1 }) := if_pos hw
      refine .inl ⟨rfl, hw, ?_⟩
      rw [DrainCall.on, hdue]
      exact ⟨rfl, rfl, rfl⟩
    · have hdue : s.due nowNs = (true, { s.markLocked nowNs with periodic := s.periodic + 1 }) := if_neg hw
      refine .inr ⟨fun _ => hw, ?_⟩
      rw [DrainCall.on, hdue]
      exact ⟨rfl, rfl, rfl⟩
  | force nowNs reason => cases reason <;> exact .inr ⟨nofun, rfl, rfl, rfl⟩

theorem on_counters (s : PCDrainSchedule) (c : DrainCall) : (c.on s).2.periodNs = s.periodNs ∧
    (c.on s).2.periodic = s.periodic + (bif !c.forced && (c.on s).1 then 1 else 0) ∧
    (c.on s).2.unload = s.unload + (bif c.reason? = some .moduleUnload then 1 else 0) ∧
    (c.on s).2.rangeEnd = s.rangeEnd + (bif c.reason? = some .rangeEnd then 1 else 0) ∧
    (c.on s).2.teardown = s.teardown + (bif c.reason? = some .teardown ∨ c.reason? = some .periodic then 1 else 0) := by
  cases c with
  | due nowNs =>
    rw [DrainCall.on, PCDrainSchedule.due]
    split <;> simp [DrainCall.forced, DrainCall.reason?, PCDrainSchedule.markLocked]
  | force nowNs reason =>
    cases reason <;>
      simp [DrainCall.on, PCDrainSchedule.force, DrainCall.forced, DrainCall.reason?, PCDrainSchedule.markLocked]

theorem add_period_le {s : PCDrainSchedule} {nowNs : UInt64} (hle : s.lastNs ≤ nowNs)
    (hd : s.drained = true) (hw : ¬s.Within nowNs) :
    s.lastNs.toNat + s.periodNs.toNat ≤ nowNs.toNat := by
  have hsub : s.periodNs ≤ nowNs - s.lastNs := UInt64.not_lt.mp fun h => hw ⟨hd, h⟩
  rw [UInt64.le_iff_toNat_le, UInt64.toNat_sub_of_le _ _ hle] at hsub
  rw [UInt64.le_iff_toNat_le] at hle
  omega

/-! ## The runs -/

theorem ofNat_countP_cons {α : Type*} (p : α → Bool) (a : α) (l : List α) :
    UInt64.ofNat ((a :: l).countP p) = .ofNat (l.countP p) + (bif p a then 1 else 0) := by
  rw [countP_cons, UInt64.ofNat_add]
  cases p a <;> rfl

structure Recorded (periodNs : UInt64) (s : DrainProcess T) : Prop where
  period : s.schedule.periodNs = periodNs
  last : s.schedule.lastNs = (s.answers.head?.map (·.phase)).getD 0
  drained : s.schedule.drained = s.answers.any (·.drains)
  fresh : s.schedule.drained = false → s.schedule.lastNs = 0
  phase : ∀ e ∈ s.answers, e.drains = true → e.phase = e.call.nowNs
  periodic : s.schedule.periodic = .ofNat (s.answers.countP (·.periodic))
  unload : s.schedule.unload = .ofNat (s.answers.countP (·.call.reason? = some .moduleUnload))
  rangeEnd : s.schedule.rangeEnd = .ofNat (s.answers.countP (·.call.reason? = some .rangeEnd))
  teardown : s.schedule.teardown = .ofNat
    (s.answers.countP fun e => e.call.reason? = some .teardown ∨ e.call.reason? = some .periodic)

theorem recorded_new (periodNs : UInt64) : Recorded periodNs (new (T := T) periodNs) := by
  constructor <;> simp [new]

theorem Recorded.answer {periodNs : UInt64} {s : DrainProcess T} (h : Recorded periodNs s) (c : DrainCall) :
    Recorded periodNs (s.answer c) := by
  obtain ⟨hperiod, hperiodic, hunload, hrange, hteardown⟩ := on_counters s.schedule c
  have hcount : ∀ p, UInt64.ofNat ((s.answer c).answers.countP p) = .ofNat (s.answers.countP p) +
      (bif p ⟨c, (c.on s.schedule).1, (c.on s.schedule).2.lastNs⟩ then 1 else 0) :=
    fun p => ofNat_countP_cons p _ _
  refine {
    period := hperiod.trans h.period
    last := rfl
    drained := ?_
    fresh := ?_
    phase := forall_mem_cons.mpr ⟨?_, h.phase⟩
    periodic := ?_
    unload := ?_
    rangeEnd := ?_
    teardown := ?_ }
  · change (c.on s.schedule).2.drained = ((c.on s.schedule).1 || s.answers.any (·.drains))
    obtain ⟨-, -, hno, -, hsame⟩ | ⟨-, hyes, -, hd⟩ := on_cases s.schedule c
    · rw [hno, hsame, h.drained, Bool.false_or]
    · rw [hyes, hd, Bool.true_or]
  · intro hfresh
    change (c.on s.schedule).2.lastNs = 0
    change (c.on s.schedule).2.drained = false at hfresh
    obtain ⟨-, -, -, hlast, hsame⟩ | ⟨-, -, -, hd⟩ := on_cases s.schedule c
    · rw [hlast, h.fresh (hsame.symm.trans hfresh)]
    · rw [hd] at hfresh
      cases hfresh
  · intro hdrains
    obtain ⟨-, -, hno, -⟩ | ⟨-, -, hlast, -⟩ := on_cases s.schedule c
    · exact absurd (hno.symm.trans hdrains) Bool.false_ne_true
    · exact hlast
  · rw [hcount, ← h.periodic]
    exact hperiodic
  · rw [hcount, ← h.unload]
    exact hunload
  · rw [hcount, ← h.rangeEnd]
    exact hrange
  · rw [hcount, ← h.teardown]
    exact hteardown

theorem countP_forced (l : List DrainAnswer) :
    l.countP (·.call.forced) = l.countP (·.call.reason? = some .moduleUnload) +
      l.countP (·.call.reason? = some .rangeEnd) +
      l.countP fun e => e.call.reason? = some .teardown ∨ e.call.reason? = some .periodic := by
  induction l with
  | nil => rfl
  | cons e l ih =>
    obtain ⟨c, drains, phase⟩ := e
    simp only [countP_cons, ih]
    cases c with
    | due nowNs => simp [DrainCall.forced, DrainCall.reason?]
    | force nowNs reason => cases reason <;> simp [DrainCall.forced, DrainCall.reason?] <;> omega

theorem Recorded.total {periodNs : UInt64} {s : DrainProcess T} (h : Recorded periodNs s) :
    s.schedule.total = s.schedule.periodic + .ofNat (s.answers.countP (·.call.forced)) := by
  rw [PCDrainSchedule.total, countP_forced, UInt64.ofNat_add, UInt64.ofNat_add, ← h.unload, ← h.rangeEnd,
    ← h.teardown, UInt64.add_assoc, UInt64.add_assoc, UInt64.add_assoc]

theorem Recorded.phase_le {s : DrainProcess T} (h : Recorded periodNs s)
    (hmono : s.answers.Pairwise fun e e' => e'.phase ≤ e.phase) : ∀ e ∈ s.answers, e.phase ≤ s.schedule.lastNs := by
  rw [h.last]
  cases hl : s.answers with
  | nil => nofun
  | cons e l =>
    rw [hl] at hmono
    exact forall_mem_cons.mpr ⟨UInt64.le_refl _, (pairwise_cons.mp hmono).1⟩

theorem inOrder_call (s : DrainProcess T) (t : T) (c : DrainCall) :
    s.InOrder (.call t c) ↔ s.schedule.lastNs ≤ (c.on s.schedule).2.lastNs := by
  obtain ⟨hforced, hw, -, hlast, -⟩ | ⟨hw, -, hlast, -⟩ := on_cases s.schedule c
  · rw [hlast]
    cases c with
    | due nowNs => exact iff_of_true (.inr hw) (UInt64.le_refl _)
    | force nowNs reason => cases hforced
  · rw [hlast]
    cases c with
    | due nowNs => exact or_iff_left (hw rfl)
    | force nowNs reason => rfl

theorem Recorded.phases_iff {s : DrainProcess T} (h : Recorded periodNs s) (t : T) (c : DrainCall) :
    ((s.answer c).answers.Pairwise fun e e' => e'.phase ≤ e.phase) ↔
      (s.answers.Pairwise fun e e' => e'.phase ≤ e.phase) ∧ s.InOrder (.call t c) := by
  rw [DrainProcess.answer, pairwise_cons, and_comm, inOrder_call]
  refine and_congr_right fun hmono => ⟨fun hall => ?_, fun hlast e he => ?_⟩
  · rw [h.last]
    cases hl : s.answers with
    | nil => exact UInt64.zero_le
    | cons e l => exact hall e (hl ▸ mem_cons_self)
  · exact UInt64.le_trans (h.phase_le hmono e he) hlast

theorem Recorded.spaced {s : DrainProcess T} (h : Recorded periodNs s) {t : T} {c : DrainCall}
    (hmono : s.answers.Pairwise fun e e' => e'.phase ≤ e.phase) (hord : s.InOrder (.call t c)) :
    ∀ e ∈ s.answers, DrainAnswer.Spaced periodNs ⟨c, (c.on s.schedule).1, (c.on s.schedule).2.lastNs⟩ e := by
  intro e he hper hdrains
  obtain ⟨hforced, hyes⟩ := Bool.and_eq_true_iff.mp hper
  have hd : s.schedule.drained = true := h.drained.trans (any_eq_true.mpr ⟨e, he, hdrains⟩)
  have hle : e.call.nowNs ≤ s.schedule.lastNs := h.phase e he hdrains ▸ h.phase_le hmono e he
  obtain ⟨-, -, hno, -⟩ | ⟨hw, -, hlast, -⟩ := on_cases s.schedule c
  · exact absurd (hno.symm.trans hyes) Bool.false_ne_true
  · have hnow : s.schedule.lastNs ≤ c.nowNs := hlast ▸ (inOrder_call s t c).mp hord
    have hadd := add_period_le hnow hd (hw (by simpa using hforced))
    rw [h.period] at hadd
    rw [UInt64.le_iff_toNat_le] at hle
    exact Nat.le_trans (Nat.add_le_add_right hle _) hadd

variable [DecidableEq T]

theorem recorded_step {s s' : DrainProcess T} {a : Action T} (h : Recorded periodNs s) (hs : s.step a = some s') :
    Recorded periodNs s' ∧ (s'.answers.Pairwise (DrainAnswer.Spaced periodNs) ∧
          s'.answers.Pairwise (fun e e' => e'.phase ≤ e.phase) ↔
        (s.answers.Pairwise (DrainAnswer.Spaced periodNs) ∧
          s.answers.Pairwise fun e e' => e'.phase ≤ e.phase) ∧ s.InOrder a) := by
  cases a with
  | tick clock =>
    obtain ⟨-, ⟨⟩⟩ := Option.ite_none_right_eq_some.mp hs
    exact ⟨{ h with }, (and_iff_left trivial).symm⟩
  | read t =>
    cases hs
    exact ⟨{ h with }, (and_iff_left trivial).symm⟩
  | call t c =>
    obtain ⟨-, ⟨⟩⟩ := Option.ite_none_right_eq_some.mp hs
    refine ⟨h.answer c, ?_⟩
    rw [h.phases_iff t c, and_assoc]
    constructor
    · rintro ⟨hspaced, hphases⟩
      exact ⟨(pairwise_cons.mp hspaced).2, hphases⟩
    · rintro ⟨hspaced, hmono, hord⟩
      exact ⟨pairwise_cons.mpr ⟨h.spaced hmono hord, hspaced⟩, hmono, hord⟩

/-- From any number of threads, the schedule keeps its period exactly in the runs in which every
drain is recorded in order. -/
theorem keepsPeriod_iff {periodNs : UInt64} {s : DrainProcess T} {as : List (Action T)}
    (h : Run (fun s a s' => step s a = some s') (new periodNs) as s) :
    s.KeepsPeriod periodNs ↔ Run (fun s a s' => s.InOrder a ∧ step s a = some s') (new periodNs) as s := by
  have hrec : Recorded periodNs s :=
    h.invariant (I := fun _ => Recorded periodNs) (recorded_new periodNs)
      fun _ s a s' _ hs ha => (recorded_step hs ha).1
  have hnone : (new (T := T) periodNs).answers = [] := rfl
  refine Iff.trans ?_ (h.iff_guarded (recorded_new periodNs) ?_ fun s a s' hs ha => recorded_step hs ha)
  · exact ⟨fun hk => ⟨hk.spaced, hk.phase⟩, fun hg => ⟨hg.1, hg.2, hrec.periodic, hrec.unload,
      hrec.rangeEnd, hrec.teardown, hrec.total⟩⟩
  · rw [hnone]
    exact ⟨.nil, .nil⟩

/-- The drain timer reads the clock, a module is unloaded a millisecond later, and the timer's
call comes after it. -/
def lateTick : List (Action Bool) :=
  [.tick 1000000000, .read false, .tick 1001000000, .read true,
    .call true (.force 1001000000 .moduleUnload), .call false (.due 1000000000)]

/-- The tick repeats the drain that the unload has just made, and moves the phase back. -/
theorem not_keepsPeriod_lateTick :
    ∃ s, Run (fun s a s' => step s a = some s') (new 100000000) lateTick s ∧ ¬s.KeepsPeriod 100000000 := by
  have hend : (lateTick.foldlM step (new 100000000)).any
      (fun s => s.answers.map (·.phase) = [1000000000, 1001000000]) = true := by decide
  obtain ⟨s, hrun, hlast⟩ := exists_run hend
  refine ⟨s, hrun, fun h => ?_⟩
  have hphases : (s.answers.map (·.phase)).Pairwise fun n n' => n' ≤ n := pairwise_map.mpr h.phase
  rw [of_decide_eq_true hlast] at hphases
  revert hphases
  decide

def timelyTick : List (Action Bool) :=
  [.tick 1000000000, .read true, .call true (.force 1000000000 .moduleUnload), .tick 1050000000,
    .read false, .call false (.due 1050000000)]

/-- The tick is coalesced. -/
theorem keepsPeriod_iff_timelyTick : ∃ s, s.schedule.coalesced = 1 ∧ (s.KeepsPeriod 100000000 ↔
        Run (fun s a s' => s.InOrder a ∧ step s a = some s') (new 100000000) timelyTick s) := by
  have hend : (timelyTick.foldlM step (new 100000000)).any (fun s => s.schedule.coalesced = 1) = true := by
    decide
  obtain ⟨s, hrun, hlast⟩ := exists_run hend
  exact ⟨s, of_decide_eq_true hlast, keepsPeriod_iff hrun⟩

end DrainProcess

end PerfAgent.Shim
