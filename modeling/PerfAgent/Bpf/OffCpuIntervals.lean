import PerfAgent.Bpf.OffCpu

/-!
# Whose interval it is

Traces of a scheduler, with the two off-CPU programs running at every switch.  A task is a number and
never comes back when it has exited, but its pid and its tgid do, and the maps are keyed by these: the
last switch-out of a task that is tracked leaves an entry which only a later task can take out.

A trace does not name the CPUs.  A switch takes the CPU from a task that is running, and what a CPU is
doing is which task it is running.
-/

namespace PerfAgent.Bpf

open Function

/-! ## Traces -/

/-- Where a task is.  It is off the CPU since a switch-out, with what was seen there, or since before the
trace. -/
inductive TaskStatus (D : Type) where
  | unborn
  | running
  | off (out : Option D)
  | exited

def TaskStatus.alive {D : Type} : TaskStatus D → Bool
  | .unborn => false
  | .running => true
  | .off _ => true
  | .exited => false

structure SchedSwitch (D : Type) where
  prev : ℕ
  next : ℕ
  /-- It is the last switch-out of `prev`. -/
  exits : Bool
  seen : D

structure OffInterval (D : Type) where
  task : ℕ
  out : D
  back : D

/-- A program that runs at `sched_switch`: which tasks it is to follow, when it reads the clock for a task
that comes back and for one that goes, and what an interval is to be credited as. -/
structure OffcpuProgram (D V C : Type) where
  run : Task → Task → D → (StartKey → Option V) → (StartKey → Option V) × Option C
  tracked : Task → Bool
  inTime : D → UInt64
  outTime : D → UInt64
  credit : Task → D → D → C

structure OffTrace (D V C : Type) where
  status : ℕ → TaskStatus D
  start : StartKey → Option V := fun _ => none
  credited : List C := []
  completed : List (OffInterval D) := []

namespace OffTrace

variable {D V C : Type} (P : OffcpuProgram D V C) (task : ℕ → Task) (s : OffTrace D V C)

def ends (next : ℕ) (seen : D) : List (OffInterval D) :=
  match s.status next with
  | .off (some out) => [{ task := next, out := out, back := seen }]
  | _ => []

def step (w : SchedSwitch D) : OffTrace D V C :=
  let (start, credit) := P.run (task w.prev) (task w.next) w.seen s.start
  { status := update
      (update s.status w.prev (if w.exits then .exited else .off (some w.seen))) w.next .running
    start := start
    credited := s.credited ++ credit.toList
    completed := s.completed ++ s.ends w.next w.seen }

structure Allowed (w : SchedSwitch D) : Prop where
  running : s.status w.prev = .running
  off : s.status w.next = .unborn ∨ ∃ out, s.status w.next = .off out
  /-- A pid is given again only when nobody has it. -/
  fresh : s.status w.next = .unborn → ∀ t, (s.status t).alive → (task t).pid ≠ 0 → (task t).pid ≠ (task w.next).pid
  inTime_pos : 0 < P.inTime w.seen
  outTime_pos : 0 < P.outTime w.seen
  ordered : ∀ out, s.status w.next = .off (some out) → P.outTime out ≤ P.inTime w.seen

structure Initial : Prop where
  distinct : ∀ t u, (s.status t).alive → (s.status u).alive → (task t).pid ≠ 0 → (task t).pid = (task u).pid → t = u
  unseen : ∀ t out, s.status t ≠ .off (some out)
  start : s.start = fun _ => none
  credited : s.credited = []
  completed : s.completed = []

/-- What is credited are the intervals of the tasks that are tracked, each of them once; and there are entries
only for tasks that are alive and off the CPU. -/
structure Sound : Prop where
  credited : s.credited =
    (s.completed.filter fun i => P.tracked (task i.task)).map fun i => P.credit (task i.task) i.out i.back
  entries : ∀ k v, s.start k = some v → ∃ t out, (task t).startKey = k ∧ s.status t = .off out

end OffTrace

/-! ## One switch -/

/-- The entry of a task that comes back is what was stashed when it went. -/
def OffcpuProgram.Stashed {D V C : Type} (P : OffcpuProgram D V C) (stash : Task → D → V)
    (start : StartKey → Option V) (next : Task) (seen : D) : Prop :=
  ∀ v, start next.startKey = some v →
    P.tracked next ∧ ∃ out, v = stash next out ∧ 0 < P.outTime out ∧ P.outTime out ≤ P.inTime seen

/-- A program takes the entry of the task that comes back, and stashes one for the task that goes.  It does not
matter in which order. -/
structure OffcpuProgram.Exchanges {D V C : Type} (P : OffcpuProgram D V C) (stash : Task → D → V) : Prop where
  pid_ne_zero : ∀ t, P.tracked t → t.pid ≠ 0
  start_eq : ∀ {prev next seen start}, (P.tracked prev → prev.startKey ≠ next.startKey) →
    P.Stashed stash start next seen → (P.run prev next seen start).1 =
      if P.tracked prev then
        update (update start next.startKey none) prev.startKey (some (stash prev seen))
      else update start next.startKey none
  credit_eq : ∀ {prev next seen start out}, (P.tracked prev → prev.startKey ≠ next.startKey) →
    P.Stashed stash start next seen → start next.startKey = some (stash next out) → P.outTime out ≤ P.inTime seen →
      (P.run prev next seen start).2 = some (P.credit next out seen)
  credit_none : ∀ {prev next seen start}, (P.tracked prev → prev.startKey ≠ next.startKey) →
    start next.startKey = none → (P.run prev next seen start).2 = none

namespace OffTrace

variable {D V C : Type} {P : OffcpuProgram D V C} {task : ℕ → Task} {stash : Task → D → V} {s : OffTrace D V C}
  {w : SchedSwitch D}

variable (P task stash s) in
/-- There is an entry for every task that is tracked and off the CPU since a switch-out, and no other. -/
structure Inv : Prop where
  distinct : ∀ t u, (s.status t).alive → (s.status u).alive → (task t).pid ≠ 0 → (task t).pid = (task u).pid → t = u
  entry_iff : ∀ k v, s.start k = some v ↔
    ∃ t out, s.status t = .off (some out) ∧ P.tracked (task t) ∧ (task t).startKey = k ∧ stash (task t) out = v
  outTime_pos : ∀ t out, s.status t = .off (some out) → 0 < P.outTime out
  credited : s.credited =
    (s.completed.filter fun i => P.tracked (task i.task)).map fun i => P.credit (task i.task) i.out i.back

theorem Initial.inv (h : s.Initial task) : s.Inv P task stash where
  distinct := h.distinct
  entry_iff := by
    intro k v
    rw [h.start]
    constructor
    · exact fun hv => by cases hv
    · rintro ⟨t, out, ht, -⟩
      exact absurd ht (h.unseen t out)
  outTime_pos := fun t out ht => absurd ht (h.unseen t out)
  credited := by
    rw [h.credited, h.completed]
    rfl

theorem Inv.sound (h : s.Inv P task stash) : s.Sound P task where
  credited := h.credited
  entries := by
    intro k v hv
    obtain ⟨t, out, ht, -, hk, -⟩ := (h.entry_iff k v).mp hv
    exact ⟨t, some out, hk, ht⟩

theorem Allowed.prev_ne_next (h : s.Allowed P task w) : w.prev ≠ w.next := by
  intro heq
  have hrunning := h.running
  rw [heq] at hrunning
  rcases h.off with hnext | ⟨out, hnext⟩
  · rw [hnext] at hrunning
    cases hrunning
  · rw [hnext] at hrunning
    cases hrunning

theorem Inv.eq_next (h : s.Inv P task stash) (ha : s.Allowed P task w) {t : ℕ} (ht : (s.status t).alive)
    (hpid : (task t).pid ≠ 0) (heq : (task t).pid = (task w.next).pid) : t = w.next := by
  rcases ha.off with hnext | ⟨out, hnext⟩
  · exact absurd heq (ha.fresh hnext t ht hpid)
  · exact h.distinct t w.next ht (by rw [hnext]; rfl) hpid heq

theorem startKey_pid {t u : Task} (h : t.startKey = u.startKey) : t.pid = u.pid := congrArg StartKey.pid h

theorem Inv.keys_ne (h : s.Inv P task stash) (hP : P.Exchanges stash) (ha : s.Allowed P task w)
    (htracked : P.tracked (task w.prev)) : (task w.prev).startKey ≠ (task w.next).startKey := by
  intro heq
  refine ha.prev_ne_next (h.eq_next ha ?_ (hP.pid_ne_zero _ htracked) (startKey_pid heq))
  rw [ha.running]
  rfl

theorem Inv.entry_next (h : s.Inv P task stash) (hP : P.Exchanges stash) (ha : s.Allowed P task w) {v : V}
    (hv : s.start (task w.next).startKey = some v) :
    P.tracked (task w.next) ∧ ∃ out, s.status w.next = .off (some out) ∧ v = stash (task w.next) out := by
  obtain ⟨t, out, ht, htracked, hkey, hstash⟩ := (h.entry_iff _ v).mp hv
  have halive : (s.status t).alive := by
    rw [ht]
    rfl
  obtain rfl := h.eq_next ha halive (hP.pid_ne_zero _ htracked) (startKey_pid hkey)
  exact ⟨htracked, out, ht, hstash.symm⟩

theorem Inv.stashed (h : s.Inv P task stash) (hP : P.Exchanges stash) (ha : s.Allowed P task w) :
    P.Stashed stash s.start (task w.next) w.seen := by
  intro v hv
  obtain ⟨htracked, out, hout, hstash⟩ := h.entry_next hP ha hv
  exact ⟨htracked, out, hstash, h.outTime_pos _ out hout, ha.ordered out hout⟩

variable (P task s w) in
theorem step_start : (s.step P task w).start = (P.run (task w.prev) (task w.next) w.seen s.start).1 := rfl

variable (P task s w) in
theorem step_credited : (s.step P task w).credited =
    s.credited ++ (P.run (task w.prev) (task w.next) w.seen s.start).2.toList := rfl

theorem step_status_next : (s.step P task w).status w.next = .running := update_self ..

theorem step_status_prev (ha : s.Allowed P task w) :
    (s.step P task w).status w.prev = if w.exits then .exited else .off (some w.seen) := by
  refine (update_of_ne ha.prev_ne_next _ _).trans ?_
  exact update_self ..

theorem step_status_of_ne {t : ℕ} (hprev : t ≠ w.prev) (hnext : t ≠ w.next) :
    (s.step P task w).status t = s.status t := by
  refine (update_of_ne hnext _ _).trans ?_
  exact update_of_ne hprev _ _

theorem alive_of_step (ha : s.Allowed P task w) {t : ℕ} (ht : ((s.step P task w).status t).alive) :
    t = w.next ∨ (s.status t).alive := by
  by_cases hnext : t = w.next
  · exact .inl hnext
  · right
    by_cases hprev : t = w.prev
    · subst hprev
      rw [ha.running]
      rfl
    · rw [step_status_of_ne hprev hnext] at ht
      exact ht

theorem Inv.step_distinct (h : s.Inv P task stash) (ha : s.Allowed P task w) (t u : ℕ)
    (ht : ((s.step P task w).status t).alive) (hu : ((s.step P task w).status u).alive) (hpid : (task t).pid ≠ 0)
    (heq : (task t).pid = (task u).pid) : t = u := by
  rcases alive_of_step ha ht with rfl | ht
  · rcases alive_of_step ha hu with rfl | hu
    · rfl
    · exact (h.eq_next ha hu (heq ▸ hpid) heq.symm).symm
  · rcases alive_of_step ha hu with rfl | hu
    · exact h.eq_next ha ht hpid heq
    · exact h.distinct t u ht hu hpid heq

theorem Inv.start_step (h : s.Inv P task stash) (hP : P.Exchanges stash) (ha : s.Allowed P task w) (k : StartKey) :
    (s.step P task w).start k =
      if P.tracked (task w.prev) ∧ k = (task w.prev).startKey then some (stash (task w.prev) w.seen)
      else if k = (task w.next).startKey then none else s.start k := by
  rw [step_start, hP.start_eq (h.keys_ne hP ha) (h.stashed hP ha)]
  by_cases htracked : P.tracked (task w.prev)
  · rw [if_pos htracked]
    simp only [update_apply, htracked, true_and]
  · rw [if_neg htracked, if_neg fun h => htracked h.1, update_apply]

/-- A task that is off the CPU after a switch is the one that went, or one that has nothing to do with it. -/
theorem off_step_iff (ha : s.Allowed P task w) (t : ℕ) (out : D) : (s.step P task w).status t = .off (some out) ↔
      (t = w.prev ∧ w.exits = false ∧ out = w.seen) ∨ (t ≠ w.next ∧ s.status t = .off (some out)) := by
  by_cases hnext : t = w.next
  · subst hnext
    rw [step_status_next]
    simp [Ne.symm ha.prev_ne_next]
  · by_cases hprev : t = w.prev
    · subst hprev
      rw [step_status_prev ha, ha.running]
      cases w.exits
      · simp [eq_comm]
      · simp
    · rw [step_status_of_ne hprev hnext]
      simp [hprev, hnext]

theorem Inv.step_entry_iff (h : s.Inv P task stash) (hP : P.Exchanges stash) (ha : s.Allowed P task w)
    (hexits : P.tracked (task w.prev) → w.exits = false) (k : StartKey) (v : V) :
    (s.step P task w).start k = some v ↔ ∃ t out, (s.step P task w).status t = .off (some out) ∧
      P.tracked (task t) ∧ (task t).startKey = k ∧ stash (task t) out = v := by
  rw [h.start_step hP ha k]
  constructor
  · intro hv
    split at hv
    · next hprev =>
        obtain ⟨htracked, rfl⟩ := hprev
        refine ⟨w.prev, w.seen, (off_step_iff ha _ _).mpr (.inl ⟨rfl, hexits htracked, rfl⟩), htracked, rfl, ?_⟩
        exact Option.some.inj hv
    · split at hv
      · cases hv
      · next hk =>
          obtain ⟨t, out, ht, htracked, rfl, hstash⟩ := (h.entry_iff k v).mp hv
          refine ⟨t, out, (off_step_iff ha t out).mpr (.inr ⟨?_, ht⟩), htracked, rfl, hstash⟩
          rintro rfl
          exact hk rfl
  · rintro ⟨t, out, ht, htracked, rfl, rfl⟩
    have halive : ((s.step P task w).status t).alive := by
      rw [ht]
      rfl
    rcases (off_step_iff ha t out).mp ht with ⟨rfl, -, rfl⟩ | ⟨hnext, hoff⟩
    · rw [if_pos ⟨htracked, rfl⟩]
    · have hne : (task t).startKey ≠ (task w.next).startKey := by
        intro heq
        have hnextalive : ((s.step P task w).status w.next).alive := by
          rw [step_status_next]
          rfl
        exact hnext (h.step_distinct ha t w.next halive hnextalive (hP.pid_ne_zero _ htracked) (startKey_pid heq))
      have hne' : ¬(P.tracked (task w.prev) ∧ (task t).startKey = (task w.prev).startKey) := by
        rintro ⟨-, heq⟩
        have hoffalive : (s.status t).alive := by
          rw [hoff]
          rfl
        have hprevalive : (s.status w.prev).alive := by
          rw [ha.running]
          rfl
        have hprev := h.distinct t w.prev hoffalive hprevalive (hP.pid_ne_zero _ htracked) (startKey_pid heq)
        rw [hprev, ha.running] at hoff
        cases hoff
      rw [if_neg hne', if_neg hne]
      exact (h.entry_iff _ _).mpr ⟨t, out, hoff, htracked, rfl, rfl⟩

theorem Inv.credit_step (h : s.Inv P task stash) (hP : P.Exchanges stash) (ha : s.Allowed P task w) :
    (P.run (task w.prev) (task w.next) w.seen s.start).2.toList =
      ((s.ends w.next w.seen).filter fun i => P.tracked (task i.task)).map
        fun i => P.credit (task i.task) i.out i.back := by
  cases hv : s.start (task w.next).startKey with
  | some v =>
    obtain ⟨htracked, out, hout, rfl⟩ := h.entry_next hP ha hv
    rw [hP.credit_eq (h.keys_ne hP ha) (h.stashed hP ha) hv (ha.ordered out hout)]
    unfold ends
    rw [hout]
    simp [htracked]
  | none =>
    rw [hP.credit_none (h.keys_ne hP ha) hv]
    have huntracked : ∀ out, s.status w.next = .off (some out) → ¬P.tracked (task w.next) := by
      intro out hout htracked
      have hentry := (h.entry_iff _ _).mpr ⟨w.next, out, hout, htracked, rfl, rfl⟩
      rw [hv] at hentry
      cases hentry
    unfold ends
    split
    · next out hout => simp [huntracked out hout]
    · rfl

theorem Inv.step (h : s.Inv P task stash) (hP : P.Exchanges stash) (ha : s.Allowed P task w)
    (hexits : P.tracked (task w.prev) → w.exits = false) : (s.step P task w).Inv P task stash where
  distinct := h.step_distinct ha
  entry_iff := h.step_entry_iff hP ha hexits
  outTime_pos := by
    intro t out ht
    rcases (off_step_iff ha t out).mp ht with ⟨-, -, rfl⟩ | ⟨-, hoff⟩
    · exact ha.outTime_pos
    · exact h.outTime_pos t out hoff
  credited := by
    rw [step_credited, h.credit_step hP ha, h.credited]
    show _ = ((s.completed ++ s.ends w.next w.seen).filter _).map _
    rw [List.filter_append, List.map_append]

theorem Inv.not_sound_step (h : s.Inv P task stash) (hP : P.Exchanges stash) (ha : s.Allowed P task w)
    (htracked : P.tracked (task w.prev)) (hexits : w.exits = true) : ¬(s.step P task w).Sound P task := by
  intro hsound
  have hentry : (s.step P task w).start (task w.prev).startKey = some (stash (task w.prev) w.seen) := by
    rw [h.start_step hP ha, if_pos ⟨htracked, rfl⟩]
  obtain ⟨t, out, hkey, ht⟩ := hsound.entries _ _ hentry
  have halive : ((s.step P task w).status t).alive := by
    rw [ht]
    rfl
  have hpid : (task t).pid ≠ 0 := startKey_pid hkey ▸ hP.pid_ne_zero _ htracked
  have hprev : ((s.step P task w).status w.prev) = .exited := by
    rw [step_status_prev ha, if_pos hexits]
  rcases alive_of_step ha halive with rfl | hold
  · rw [step_status_next] at ht
    cases ht
  · have hprevalive : (s.status w.prev).alive := by
      rw [ha.running]
      rfl
    obtain rfl := h.distinct t w.prev hold hprevalive hpid (startKey_pid hkey)
    rw [hprev] at ht
    cases ht

theorem Inv.sound_iff (h : s.Inv P task stash) (hP : P.Exchanges stash) {as : List (SchedSwitch D)}
    (ha : Along (OffTrace.step P task) (Allowed P task) s as) :
    (∀ as', as' <+: as → (as'.foldl (OffTrace.step P task) s).Sound P task) ↔
      ∀ w ∈ as, P.tracked (task w.prev) → w.exits = false := by
  induction as generalizing s with
  | nil =>
    constructor
    · intro _ w hw
      cases hw
    · intro _ as' has'
      rw [List.prefix_nil.mp has']
      exact h.sound
  | cons w as ih =>
    obtain ⟨hw, has⟩ := ha
    constructor
    · intro hsound
      have hexits : P.tracked (task w.prev) → w.exits = false := by
        intro htracked
        rw [← Bool.not_eq_true]
        intro hexits
        exact h.not_sound_step hP hw htracked hexits (hsound [w] (by simp))
      have hrest := (ih (h.step hP hw hexits) has).mp fun as' has' =>
        hsound (w :: as') (List.cons_prefix_cons.mpr ⟨rfl, has'⟩)
      intro w' hw'
      rcases List.mem_cons.mp hw' with rfl | hw'
      · exact hexits
      · exact hrest w' hw'
    · intro hexits as' has'
      cases as' with
      | nil => exact h.sound
      | cons w' as' =>
        obtain ⟨rfl, htail⟩ := List.cons_prefix_cons.mp has'
        have hstep := h.step hP hw (hexits w' List.mem_cons_self)
        exact (ih hstep has).mpr (fun w hw => hexits w (List.mem_cons_of_mem _ hw)) as' htail

end OffTrace

/-! ## The two programs -/

theorem sub_eq_ofNat_sub {a b : UInt64} (h : b ≤ a) : a - b = UInt64.ofNat (a.toNat - b.toNat) := by
  rw [← UInt64.toNat_sub_of_le a b h, UInt64.ofNat_toNat]

def offcpuProgram (cfg : OffcpuConfig) : OffcpuProgram OffcpuSeen StartVal (OffcpuKey × UInt64) where
  run := handleSchedSwitch cfg
  tracked t := decide (t.pid ≠ 0 ∧ cfg.shouldTrack t.tgid ∧ t.isKthread = false)
  inTime := OffcpuSeen.now
  outTime := OffcpuSeen.now
  credit t out back :=
    ({ pid := t.tgid
       kernStack := if cfg.kernelStacksEnabled then out.kernStackId else -1
       userStack := out.userStackId },
      UInt64.ofNat (back.now.toNat - out.now.toNat))

/-- What `offcpu.bpf.c` stashes. -/
def startVal (cfg : OffcpuConfig) (_ : Task) (seen : OffcpuSeen) : StartVal where
  timestamp := seen.now
  kernStack := if cfg.kernelStacksEnabled then seen.kernStackId else -1
  userStack := seen.userStackId

section

variable {cfg : OffcpuConfig} {prev next : Task} {seen : OffcpuSeen} {start : StartKey → Option StartVal}

theorem handlePrev_of_tracked (h : (offcpuProgram cfg).tracked prev) :
    handlePrev cfg start prev seen = update start prev.startKey (some (startVal cfg prev seen)) :=
  if_pos (of_decide_eq_true h)

theorem handlePrev_of_not_tracked (h : ¬(offcpuProgram cfg).tracked prev) : handlePrev cfg start prev seen = start :=
  if_neg fun htracked => h (decide_eq_true htracked)

theorem handlePrev_next (h : (offcpuProgram cfg).tracked prev → prev.startKey ≠ next.startKey) :
    handlePrev cfg start prev seen next.startKey = start next.startKey := by
  by_cases htracked : (offcpuProgram cfg).tracked prev
  · rw [handlePrev_of_tracked htracked]
    exact update_of_ne (h htracked).symm _ _
  · rw [handlePrev_of_not_tracked htracked]

theorem handleNext_of_none (h : start next.startKey = none) : handleNext cfg start next seen = (start, none) := by
  unfold handleNext
  rw [h]
  split
  · rfl
  · rfl

theorem handleNext_of_some {out : OffcpuSeen} (h : start next.startKey = some (startVal cfg next out))
    (htracked : (offcpuProgram cfg).tracked next) (hpos : 0 < out.now) :
    handleNext cfg start next seen = (update start next.startKey none,
      some ({ pid := next.tgid
              kernStack := if cfg.kernelStacksEnabled then out.kernStackId else -1
              userStack := out.userStackId }, seen.now - out.now)) := by
  have hlooks := of_decide_eq_true htracked
  unfold handleNext
  rw [if_pos ⟨hlooks.1, hlooks.2.1⟩, h]
  exact if_pos hpos

theorem offcpuProgram_exchanges (cfg : OffcpuConfig) : (offcpuProgram cfg).Exchanges (startVal cfg) where
  pid_ne_zero := fun t ht => (of_decide_eq_true ht).1
  start_eq := by
    intro prev next seen start hkeys hstashed
    show (handleNext cfg (handlePrev cfg start prev seen) next seen).1 = _
    cases hv : start next.startKey with
    | none =>
      have hself : update start next.startKey none = start := by
        rw [← hv]
        exact update_eq_self _ _
      rw [handleNext_of_none ((handlePrev_next hkeys).trans hv), hself]
      split
      · next htracked => exact handlePrev_of_tracked htracked
      · next htracked => exact handlePrev_of_not_tracked htracked
    | some v =>
      obtain ⟨hnext, out, rfl, hpos, -⟩ := hstashed v hv
      rw [handleNext_of_some ((handlePrev_next hkeys).trans hv) hnext hpos]
      by_cases htracked : (offcpuProgram cfg).tracked prev
      · rw [if_pos htracked, handlePrev_of_tracked htracked]
        exact update_comm (hkeys htracked) _ _ _
      · rw [if_neg htracked, handlePrev_of_not_tracked htracked]
  credit_eq := by
    intro prev next seen start out hkeys hstashed hv hle
    obtain ⟨hnext, out', heq, hpos, -⟩ := hstashed _ hv
    have hnow : out.now = out'.now := congrArg StartVal.timestamp heq
    show (handleNext cfg (handlePrev cfg start prev seen) next seen).2 = _
    rw [handleNext_of_some ((handlePrev_next hkeys).trans hv) hnext (hnow ▸ hpos)]
    have hsub : seen.now - out.now = UInt64.ofNat (seen.now.toNat - out.now.toNat) := sub_eq_ofNat_sub hle
    rw [hsub]
    rfl
  credit_none := by
    intro prev next seen start hkeys hv
    show (handleNext cfg (handlePrev cfg start prev seen) next seen).2 = _
    rw [handleNext_of_none ((handlePrev_next hkeys).trans hv)]

end

def offcpuDwarfProgram (cfg : OffcpuConfig) : OffcpuProgram OffcpuDwarfSeen OffcpuSample OffcpuSample where
  run := offcpuDwarfSchedSwitch cfg
  tracked t := decide (t.pid ≠ 0 ∧ t.tgid ≠ 0 ∧ t.isKthread = false ∧ cfg.shouldTrack t.tgid)
  inTime := OffcpuDwarfSeen.now
  outTime := OffcpuDwarfSeen.later
  credit t out back :=
    ({ (offcpuDwarfWalk cfg t out).1 with value := UInt64.ofNat (back.now.toNat - out.later.toNat) }, out.walked.2)

section

variable {cfg : OffcpuConfig} {prev next : Task} {seen : OffcpuDwarfSeen} {start : StartKey → Option OffcpuSample}

theorem handleSwitchOut_of_tracked (h : (offcpuDwarfProgram cfg).tracked prev) : handleSwitchOut cfg start prev seen =
      update start prev.startKey (some (offcpuDwarfWalk cfg prev seen)) := by
  obtain ⟨hpid, htgid, hkthread, htrack⟩ := of_decide_eq_true h
  unfold handleSwitchOut
  rw [if_neg (by simp [hpid, htgid]), if_neg (by simp [hkthread]), if_neg]
  rintro ⟨hwide, hfilter⟩
  unfold OffcpuConfig.shouldTrack at htrack
  rw [hwide, hfilter] at htrack
  cases htrack

theorem handleSwitchOut_of_not_tracked (h : ¬(offcpuDwarfProgram cfg).tracked prev) :
    handleSwitchOut cfg start prev seen = start := by
  unfold handleSwitchOut
  split
  · rfl
  · next hids =>
      split
      · rfl
      · next hkthread =>
          split
          · rfl
          · next hfilter =>
              refine absurd (decide_eq_true ?_) h
              rw [not_or] at hids
              refine ⟨hids.1, hids.2, Bool.eq_false_iff.mpr hkthread, ?_⟩
              unfold OffcpuConfig.shouldTrack
              cases hwide : cfg.systemWide with
              | true => rfl
              | false =>
                cases hpid : cfg.pidFilter prev.tgid with
                | true => rfl
                | false => exact absurd ⟨hwide, hpid⟩ hfilter

theorem handleSwitchIn_of_none (h : start next.startKey = none) : handleSwitchIn start next seen = (start, none) := by
  unfold handleSwitchIn
  rw [h]
  split
  · rfl
  · rfl

theorem handleSwitchIn_of_some {out : OffcpuDwarfSeen} (h : start next.startKey = some (offcpuDwarfWalk cfg next out))
    (htracked : (offcpuDwarfProgram cfg).tracked next) (hpos : 0 < out.later) :
    handleSwitchIn start next seen = (update start next.startKey none,
      some ({ (offcpuDwarfWalk cfg next out).1 with value := seen.now - out.later }, out.walked.2)) := by
  have hpid := (of_decide_eq_true htracked).1
  have hvalue : ¬(offcpuDwarfWalk cfg next out).1.value = 0 := fun hzero => by
    rw [show out.later = 0 from hzero] at hpos
    exact absurd hpos (by decide)
  unfold handleSwitchIn
  rw [if_neg hpid, h]
  exact if_neg hvalue

theorem offcpuDwarfProgram_exchanges (cfg : OffcpuConfig) :
    (offcpuDwarfProgram cfg).Exchanges (offcpuDwarfWalk cfg) where
  pid_ne_zero := fun t ht => (of_decide_eq_true ht).1
  start_eq := by
    intro prev next seen start hkeys hstashed
    have hin : (handleSwitchIn start next seen).1 = update start next.startKey none := by
      cases hv : start next.startKey with
      | none =>
        rw [handleSwitchIn_of_none hv, ← hv]
        exact (update_eq_self _ _).symm
      | some v =>
        obtain ⟨hnext, out, rfl, hpos, -⟩ := hstashed v hv
        rw [handleSwitchIn_of_some hv hnext hpos]
    show handleSwitchOut cfg (handleSwitchIn start next seen).1 prev seen = _
    rw [hin]
    by_cases htracked : (offcpuDwarfProgram cfg).tracked prev
    · rw [if_pos htracked, handleSwitchOut_of_tracked htracked]
    · rw [if_neg htracked, handleSwitchOut_of_not_tracked htracked]
  credit_eq := by
    intro prev next seen start out hkeys hstashed hv hle
    obtain ⟨hnext, out', heq, hpos, -⟩ := hstashed _ hv
    have hlater : out.later = out'.later := congrArg (fun sample => sample.1.value) heq
    have hsub : seen.now - out.later = UInt64.ofNat (seen.now.toNat - out.later.toNat) := sub_eq_ofNat_sub hle
    show (handleSwitchIn start next seen).2 = _
    rw [handleSwitchIn_of_some hv hnext (hlater ▸ hpos), hsub]
    rfl
  credit_none := by
    intro prev next seen start hkeys hv
    show (handleSwitchIn start next seen).2 = _
    rw [handleSwitchIn_of_none hv]

end

/-- In every trace of a scheduler, each of the two programs credits every interval of a task that it tracks, once,
to that task and its stack, and has entries only for tasks that are off the CPU, exactly if no such task exits. -/
theorem intervals_sound_iff (cfg : OffcpuConfig) (task : ℕ → Task) :
    (∀ (s : OffTrace OffcpuSeen StartVal (OffcpuKey × UInt64)) (as : List (SchedSwitch OffcpuSeen)),
      s.Initial task → Along (OffTrace.step (offcpuProgram cfg) task) (OffTrace.Allowed (offcpuProgram cfg) task) s as →
        ((∀ as', as' <+: as → (as'.foldl (OffTrace.step (offcpuProgram cfg) task) s).Sound (offcpuProgram cfg) task) ↔
          ∀ w ∈ as, (offcpuProgram cfg).tracked (task w.prev) → w.exits = false)) ∧
    (∀ (s : OffTrace OffcpuDwarfSeen OffcpuSample OffcpuSample) (as : List (SchedSwitch OffcpuDwarfSeen)),
      s.Initial task →
        Along (OffTrace.step (offcpuDwarfProgram cfg) task) (OffTrace.Allowed (offcpuDwarfProgram cfg) task) s as →
        ((∀ as', as' <+: as →
            (as'.foldl (OffTrace.step (offcpuDwarfProgram cfg) task) s).Sound (offcpuDwarfProgram cfg) task) ↔
          ∀ w ∈ as, (offcpuDwarfProgram cfg).tracked (task w.prev) → w.exits = false)) := by
  constructor
  · intro s as hinit hallowed
    have hinv : s.Inv (offcpuProgram cfg) task (startVal cfg) := hinit.inv
    exact hinv.sound_iff (offcpuProgram_exchanges cfg) hallowed
  · intro s as hinit hallowed
    have hinv : s.Inv (offcpuDwarfProgram cfg) task (offcpuDwarfWalk cfg) := hinit.inv
    exact hinv.sound_iff (offcpuDwarfProgram_exchanges cfg) hallowed

variable (exits : Bool)

/-! A process that runs on the only CPU, and one that has its ids later. -/

section

variable {D V C : Type} {P : OffcpuProgram D V C}

def idsOfSeven (t : ℕ) : Task :=
  if t = 1 ∨ t = 2 then { pid := 7, tgid := 7, flags := 0 } else { pid := 0, tgid := 0, flags := pfKthread }

def oneRunning : OffTrace D V C :=
  { status := fun t => if t = 1 then .running else if t = 0 then .off none else .unborn }

def leaves (seen : D) : SchedSwitch D := { prev := 1, next := 0, exits := exits, seen := seen }

def comes (t : ℕ) (seen : D) : SchedSwitch D := { prev := 0, next := t, exits := false, seen := seen }

theorem initial_oneRunning : (oneRunning : OffTrace D V C).Initial idsOfSeven := by
  have halive : ∀ t, ((oneRunning : OffTrace D V C).status t).alive → (idsOfSeven t).pid ≠ 0 → t = 1 := by
    intro t ht hpid
    by_contra hone
    by_cases hzero : t = 0
    · exact hpid (by simp [idsOfSeven, hzero])
    · simp [oneRunning, hone, hzero, TaskStatus.alive] at ht
  refine ⟨fun t u ht hu hpid heq => ?_, fun t out ht => ?_, rfl, rfl, rfl⟩
  · rw [halive t ht hpid, halive u hu (heq ▸ hpid)]
  · simp only [oneRunning] at ht
    split at ht
    · cases ht
    · split at ht
      · cases ht
      · cases ht

theorem allowed_leaves {seen : D} (hin : 0 < P.inTime seen) (hout : 0 < P.outTime seen) :
    oneRunning.Allowed P idsOfSeven (leaves exits seen) where
  running := rfl
  off := .inr ⟨none, rfl⟩
  fresh := fun h => by cases h
  inTime_pos := hin
  outTime_pos := hout
  ordered := fun out h => by cases h

theorem allowed_comes_back {seen seen' : D} (hin : 0 < P.inTime seen') (hout : 0 < P.outTime seen')
    (hle : P.outTime seen ≤ P.inTime seen') :
    (oneRunning.step P idsOfSeven (leaves false seen)).Allowed P idsOfSeven (comes 1 seen') where
  running := rfl
  off := .inr ⟨some seen, rfl⟩
  fresh := fun h => by cases h
  inTime_pos := hin
  outTime_pos := hout
  ordered := fun out h => by
    cases h
    exact hle

theorem allowed_comes_new {seen seen' : D} (hin : 0 < P.inTime seen') (hout : 0 < P.outTime seen') :
    (oneRunning.step P idsOfSeven (leaves true seen)).Allowed P idsOfSeven (comes 2 seen') where
  running := rfl
  off := .inl rfl
  fresh := by
    intro _ t ht hpid
    by_cases hzero : t = 0
    · exact absurd (by simp [idsOfSeven, hzero]) hpid
    · by_cases hone : t = 1
      · subst hone
        cases ht
      · simp [OffTrace.step, leaves, oneRunning, hone, hzero, TaskStatus.alive] at ht
  inTime_pos := hin
  outTime_pos := hout
  ordered := fun out h => by cases h

end

def allTasks : OffcpuConfig := { systemWide := true, kernelStacksEnabled := false, pidFilter := fun _ => false }

variable (now : UInt64)

/-- What `offcpu.bpf.c` sees. -/
def seenAt : OffcpuSeen := { now := now, kernStackId := 0, userStackId := 3 }

/-- What `offcpu_dwarf.bpf.c` sees. -/
def seenByDwarf : OffcpuDwarfSeen where
  now := now
  walked := ({ pid := 0, tid := 0, timeNs := 0, value := 0, mode := 0, nPcs := 0, pad2 := 0, kernStack := 0 },
    { walkerFlags := 0, pcs := Vector.replicate maxFrames 0, tags := Vector.replicate maxFrames 0 })
  nPcs := 0
  kernStackId := 0
  later := now

/-- The process comes back. -/
theorem intervals_sound_comes_back :
    ([leaves false (seenAt 10), comes 1 (seenAt 15)].foldl (OffTrace.step (offcpuProgram allTasks) idsOfSeven)
        oneRunning).Sound (offcpuProgram allTasks) idsOfSeven ∧
      ([leaves false (seenByDwarf 10), comes 1 (seenByDwarf 15)].foldl
        (OffTrace.step (offcpuDwarfProgram allTasks) idsOfSeven) oneRunning).Sound (offcpuDwarfProgram allTasks)
          idsOfSeven := by
  constructor
  · refine ((intervals_sound_iff allTasks idsOfSeven).1 oneRunning _ initial_oneRunning ?_).mpr ?_ _ List.prefix_rfl
    · exact ⟨allowed_leaves false (by decide) (by decide), allowed_comes_back (by decide) (by decide) (by decide),
        trivial⟩
    · simp [leaves, comes]
  · refine ((intervals_sound_iff allTasks idsOfSeven).2 oneRunning _ initial_oneRunning ?_).mpr ?_ _ List.prefix_rfl
    · exact ⟨allowed_leaves false (by decide) (by decide), allowed_comes_back (by decide) (by decide) (by decide),
        trivial⟩
    · simp [leaves, comes]

/-- The process exits, and a later one that has its ids is credited with the time in between. -/
theorem not_sound_comes_new : ((oneRunning : OffTrace OffcpuSeen StartVal (OffcpuKey × UInt64)).Initial idsOfSeven ∧
      Along (OffTrace.step (offcpuProgram allTasks) idsOfSeven) (OffTrace.Allowed (offcpuProgram allTasks) idsOfSeven)
        oneRunning [leaves true (seenAt 10), comes 2 (seenAt 15)] ∧
      ¬([leaves true (seenAt 10), comes 2 (seenAt 15)].foldl (OffTrace.step (offcpuProgram allTasks) idsOfSeven)
        oneRunning).Sound (offcpuProgram allTasks) idsOfSeven) ∧
    (oneRunning : OffTrace OffcpuDwarfSeen OffcpuSample OffcpuSample).Initial idsOfSeven ∧
      Along (OffTrace.step (offcpuDwarfProgram allTasks) idsOfSeven)
        (OffTrace.Allowed (offcpuDwarfProgram allTasks) idsOfSeven) oneRunning
        [leaves true (seenByDwarf 10), comes 2 (seenByDwarf 15)] ∧
      ¬([leaves true (seenByDwarf 10), comes 2 (seenByDwarf 15)].foldl
        (OffTrace.step (offcpuDwarfProgram allTasks) idsOfSeven) oneRunning).Sound (offcpuDwarfProgram allTasks)
          idsOfSeven := by
  refine ⟨⟨initial_oneRunning, ?_, fun h => ?_⟩, initial_oneRunning, ?_, fun h => ?_⟩
  · exact ⟨allowed_leaves true (by decide) (by decide), allowed_comes_new (by decide) (by decide), trivial⟩
  · exact absurd (congrArg List.length h.credited) (by decide)
  · exact ⟨allowed_leaves true (by decide) (by decide), allowed_comes_new (by decide) (by decide), trivial⟩
  · exact absurd (congrArg List.length h.credited) (by decide)

end PerfAgent.Bpf
