import PerfAgent.Bpf.Cpu

/-!
# What the scheduler did

Traces of a scheduler, with `cpu.bpf.c` running at every wakeup and at every switch.  A task is a number and
never comes back when it has exited, but its pid does, and the maps are keyed by that.

The scheduler keeps a task runnable that is switched out if it was preempted or its state is 0.  The program
reads the same two values, and comes to another answer: it takes a task to be runnable that has neither of the
two sleeping bits, as a task that is stopped, traced or dead, and it reports a task as asleep that was
preempted on its way to sleep.
-/

namespace PerfAgent.Bpf

open Function

/-! ## Traces -/

/-- Where a task is: it is waiting since it became runnable, and it is running since it was switched in, with
the time when it had become runnable.  A time is not known if it was before the trace. -/
inductive RunStatus where
  | unborn
  | blocked
  | waiting (since : Option UInt64)
  | running (since switchedIn : Option UInt64)
  | exited

def RunStatus.alive : RunStatus → Bool
  | .unborn => false
  | .blocked => true
  | .waiting _ => true
  | .running _ _ => true
  | .exited => false

def taskDead : UInt32 := 0x00000080

def SwitchSeen.stayed (seen : SwitchSeen) : Bool := seen.preempt || seen.prevState = 0

def SwitchSeen.leftAs (seen : SwitchSeen) : RunStatus :=
  if seen.stayed then .waiting (some seen.now)
  else if seen.prevState &&& taskDead ≠ 0 then .exited
  else .blocked

inductive SchedEvent where
  | wakeup (p : ℕ) (ts : UInt64)
  | wakeupNew (p : ℕ) (ts : UInt64)
  | switch (prev next : ℕ) (seen : SwitchSeen)

/-- The end of a run of a task, and the switch before it on its CPU. -/
structure SwitchOut where
  since : Option UInt64
  switchedIn : Option UInt64
  lastSwitch : Option UInt64
  at_ : UInt64
  stayed : Bool

structure SchedTrace where
  status : ℕ → RunStatus
  maps : CpuMaps := {}
  lastSwitch : UInt32 → Option UInt64 := fun _ => none
  clock : UInt64 := 0
  /-- The records that were sent, each with the run that it is about. -/
  reports : List (PidStat × SwitchOut) := []

namespace SchedTrace

variable (cfg : CpuConfig) (task : ℕ → Task) (s : SchedTrace)

/-- A task that is asleep becomes runnable; for one that is runnable a wakeup changes nothing. -/
def wakes (p : ℕ) (ts : UInt64) : ℕ → RunStatus :=
  match s.status p with
  | .unborn => update s.status p (.waiting (some ts))
  | .blocked => update s.status p (.waiting (some ts))
  | _ => s.status

def switchedIn (next : ℕ) (now : UInt64) : RunStatus :=
  match s.status next with
  | .waiting since => .running since (some now)
  | _ => .running none (some now)

def switchOut (prev : ℕ) (seen : SwitchSeen) : SwitchOut :=
  let (since, switchedIn) :=
    match s.status prev with
    | .running since switchedIn => (since, switchedIn)
    | _ => (none, none)
  { since := since
    switchedIn := switchedIn
    lastSwitch := s.lastSwitch seen.cpu
    at_ := seen.now
    stayed := seen.stayed }

def step : SchedEvent → SchedTrace
  | .wakeup p ts => { s with status := s.wakes p ts, maps := handleWakeup cfg s.maps (task p) ts, clock := ts }
  | .wakeupNew p ts => { s with status := s.wakes p ts, maps := handleWakeupNew cfg s.maps (task p) ts, clock := ts }
  | .switch prev next seen =>
    let (maps, ps) := handleSwitch cfg s.maps (task prev) (task next) seen
    { status := update (update s.status prev seen.leftAs) next (s.switchedIn next seen.now)
      maps := maps
      lastSwitch := update s.lastSwitch seen.cpu (some seen.now)
      clock := seen.now
      reports := s.reports ++ (ps.map fun ps => (ps, s.switchOut prev seen)).toList }

/-- What a scheduler and its clock allow.  A wakeup may find its task runnable already, and the idle tasks are
never woken. -/
def Allowed : SchedEvent → Prop
  | .wakeup p ts => 0 < ts ∧ s.clock ≤ ts ∧ (s.status p).alive ∧ (task p).pid ≠ 0
  | .wakeupNew p ts => 0 < ts ∧ s.clock ≤ ts ∧ s.status p = .unborn ∧ (task p).pid ≠ 0 ∧
      -- A pid is given again only when nobody has it.
      ∀ t, (s.status t).alive → (task t).pid ≠ (task p).pid
  | .switch prev next seen => 0 < seen.now ∧ s.clock ≤ seen.now ∧
      (∃ since switchedIn, s.status prev = .running since switchedIn) ∧ ∃ since, s.status next = .waiting since

structure Initial : Prop where
  distinct : ∀ t u, (s.status t).alive → (s.status u).alive → (task t).pid ≠ 0 → (task t).pid = (task u).pid → t = u
  waiting : ∀ t ts, s.status t ≠ .waiting (some ts)
  maps : s.maps = {}
  lastSwitch : s.lastSwitch = fun _ => none
  reports : s.reports = []

structure Describes (ps : PidStat) (out : SwitchOut) : Prop where
  runqLatency : ps.runqLatencyNs ≠ 0 → ∃ since switchedIn, out.since = some since ∧ out.switchedIn = some switchedIn ∧
    ps.runqLatencyNs.toNat = switchedIn.toNat - since.toNat
  delta : ps.deltaNs.toNat = (out.lastSwitch.map fun last => out.at_.toNat - last.toNat).getD 0
  state : ps.prevState = stateRunning ↔ out.stayed

structure Sound : Prop where
  reports : ∀ r ∈ s.reports, Describes r.1 r.2
  wakeupTs : ∀ pid ts, s.maps.wakeupTs pid = some ts → ∃ t since, (task t).pid = pid ∧ s.status t = .waiting since
  pidRunqLatency : ∀ pid lat, s.maps.pidRunqLatency pid = some lat →
    ∃ t since switchedIn, (task t).pid = pid ∧ s.status t = .running since switchedIn

/-- What goes well: a wakeup finds its task asleep; and when a task is switched out that is tracked, it was not
preempted on its way to sleep, has a sleeping bit if it was not preempted and is not runnable, its record finds
room, and the CPU is one of those that have a slot. -/
def Meets : SchedEvent → Prop
  | .wakeup p _ => cfg.tracksWakeup (task p) → s.status p = .blocked
  | .wakeupNew _ _ => True
  | .switch prev _ seen => (task prev).pid ≠ 0 → cfg.tracksSwitch (task prev) →
      (seen.stayed ∨ seen.prevState &&& (taskInterruptible ||| taskUninterruptible) ≠ 0) ∧
      (seen.reserved ∨ s.maps.pidRunqLatency (task prev).pid = none) ∧
      (seen.reserved → (seen.preempt → seen.prevState &&& (taskInterruptible ||| taskUninterruptible) = 0) ∧
        (seen.cpu < lastSeenEntries ∨ s.lastSwitch seen.cpu = none))

end SchedTrace

/-! ## What the hooks do to the maps -/

theorem CpuMaps.wakeup_wakeupTs (cfg : CpuConfig) (m : CpuMaps) (p : Task) (ts : UInt64) :
    (m.wakeup cfg p ts).wakeupTs =
      if cfg.tracksWakeup p then update m.wakeupTs p.pid (some ts) else m.wakeupTs := by
  unfold CpuMaps.wakeup CpuConfig.tracksWakeup
  cases cfg.systemWide <;> cases cfg.pidFilter p.tgid <;> cases p.isKthread <;> rfl

theorem CpuMaps.wakeup_pidRunqLatency (cfg : CpuConfig) (m : CpuMaps) (p : Task) (ts : UInt64) :
    (m.wakeup cfg p ts).pidRunqLatency = m.pidRunqLatency := by
  unfold CpuMaps.wakeup
  split
  · rfl
  · split
    · rfl
    · rfl

theorem CpuMaps.wakeup_lastSeen (cfg : CpuConfig) (m : CpuMaps) (p : Task) (ts : UInt64) :
    (m.wakeup cfg p ts).lastSeen = m.lastSeen := by
  unfold CpuMaps.wakeup
  split
  · rfl
  · split
    · rfl
    · rfl

variable {ps : PidStat}

theorem CpuConfig.tracksSwitch_of_tracksWakeup {cfg : CpuConfig} {p : Task} (h : cfg.tracksWakeup p) :
    cfg.tracksSwitch p := by
  unfold CpuConfig.tracksWakeup at h
  unfold CpuConfig.tracksSwitch
  cases hwide : cfg.systemWide
  · simp_all
  · simp_all

section

variable (cfg : CpuConfig) (m : CpuMaps) (prev next : Task) (seen : SwitchSeen)

theorem CpuMaps.switchIn_wakeupTs (pid : UInt32) : (m.switchIn next seen.now).wakeupTs pid =
    if next.pid ≠ 0 ∧ pid = next.pid then none else m.wakeupTs pid := by
  unfold CpuMaps.switchIn
  by_cases hzero : next.pid = 0
  · simp [hzero]
  · cases hv : m.wakeupTs next.pid with
    | none =>
      by_cases hpid : pid = next.pid
      · simp [hzero, hpid, hv]
      · simp [hzero, hpid]
    | some wakeTs => simp [hzero, update_apply]

theorem CpuMaps.switchIn_pidRunqLatency (pid : UInt32) : (m.switchIn next seen.now).pidRunqLatency pid =
    if next.pid ≠ 0 ∧ pid = next.pid then
      (m.wakeupTs next.pid).elim (m.pidRunqLatency pid) fun wakeTs => some (seen.now - wakeTs)
    else m.pidRunqLatency pid := by
  unfold CpuMaps.switchIn
  by_cases hzero : next.pid = 0
  · simp [hzero]
  · cases hv : m.wakeupTs next.pid with
    | none => simp [hzero]
    | some wakeTs => simp [hzero, update_apply]

theorem CpuMaps.switchIn_lastSeen : (m.switchIn next seen.now).lastSeen = m.lastSeen := by
  unfold CpuMaps.switchIn
  split
  · split
    · rfl
    · rfl
  · rfl

variable (delta : UInt64) (counters : UInt64 × UInt64 × UInt64)

theorem CpuMaps.switchOut_wakeupTs (pid : UInt32) : (m.switchOut cfg prev seen delta counters).1.wakeupTs pid =
    if prev.pid ≠ 0 ∧ cfg.tracksSwitch prev ∧ (seen.preempt ∨ classifyTaskState seen.prevState = stateRunning) ∧
      pid = prev.pid then some seen.now else m.wakeupTs pid := by
  unfold CpuMaps.switchOut
  by_cases hpid : prev.pid ≠ 0 ∧ cfg.tracksSwitch prev = true
  · by_cases hrunning : seen.preempt = true ∨ classifyTaskState seen.prevState = stateRunning
    · cases seen.reserved <;> simp [hpid.1, hpid.2, hrunning, update_apply]
    · cases seen.reserved <;> simp [hpid.1, hpid.2, hrunning]
  · simp only [if_neg hpid]
    rw [if_neg fun h => hpid ⟨h.1, h.2.1⟩]

theorem CpuMaps.switchOut_pidRunqLatency (pid : UInt32) :
    (m.switchOut cfg prev seen delta counters).1.pidRunqLatency pid =
      if prev.pid ≠ 0 ∧ cfg.tracksSwitch prev ∧ seen.reserved ∧ pid = prev.pid then none
      else m.pidRunqLatency pid := by
  unfold CpuMaps.switchOut
  by_cases hpid : prev.pid ≠ 0 ∧ cfg.tracksSwitch prev = true
  · by_cases hrunning : seen.preempt = true ∨ classifyTaskState seen.prevState = stateRunning
    · cases seen.reserved <;> simp [hpid.1, hpid.2, hrunning, update_apply]
    · cases seen.reserved <;> simp [hpid.1, hpid.2, hrunning, update_apply]
  · simp only [if_neg hpid]
    rw [if_neg fun h => hpid ⟨h.1, h.2.1⟩]

theorem CpuMaps.switchOut_lastSeen : (m.switchOut cfg prev seen delta counters).1.lastSeen = m.lastSeen := by
  unfold CpuMaps.switchOut
  by_cases hpid : prev.pid ≠ 0 ∧ cfg.tracksSwitch prev = true
  · by_cases hrunning : seen.preempt = true ∨ classifyTaskState seen.prevState = stateRunning
    · cases seen.reserved <;> simp [hpid.1, hpid.2, hrunning]
    · cases seen.reserved <;> simp [hpid.1, hpid.2, hrunning]
  · simp only [if_neg hpid]

theorem CpuMaps.switchOut_some (h : (m.switchOut cfg prev seen delta counters).2 = some ps) :
    prev.pid ≠ 0 ∧ cfg.tracksSwitch prev ∧ seen.reserved ∧ ps.deltaNs = delta ∧
      ps.runqLatencyNs = (m.pidRunqLatency prev.pid).getD 0 ∧
      ps.prevState = classifyTaskState seen.prevState := by
  unfold CpuMaps.switchOut at h
  by_cases hpid : prev.pid ≠ 0 ∧ cfg.tracksSwitch prev = true
  · cases hreserved : seen.reserved with
    | false =>
      rw [if_pos hpid] at h
      simp only [hreserved] at h
      split at h
      · cases h
      · cases h
    | true =>
      rw [if_pos hpid] at h
      simp only [hreserved] at h
      refine ⟨hpid.1, hpid.2, rfl, ?_⟩
      split at h
      · cases h
        exact ⟨rfl, rfl, rfl⟩
      · cases h
        exact ⟨rfl, rfl, rfl⟩
  · rw [if_neg hpid] at h
    cases h

variable (pid : UInt32)

theorem CpuMaps.readCounters_wakeupTs : (m.readCounters cfg seen).1.wakeupTs = m.wakeupTs := by
  unfold CpuMaps.readCounters
  cases cfg.hwCountersEnabled <;> rfl

theorem CpuMaps.readCounters_pidRunqLatency : (m.readCounters cfg seen).1.pidRunqLatency = m.pidRunqLatency := by
  unfold CpuMaps.readCounters
  cases cfg.hwCountersEnabled <;> rfl

theorem CpuMaps.readCounters_lastSeen : (m.readCounters cfg seen).1.lastSeen = m.lastSeen := by
  unfold CpuMaps.readCounters
  cases cfg.hwCountersEnabled <;> rfl

theorem CpuMaps.updateLastSeen_wakeupTs (cpu : UInt32) (now : UInt64) :
    (m.updateLastSeen cpu now).wakeupTs = m.wakeupTs := by
  unfold CpuMaps.updateLastSeen
  split <;> rfl

theorem CpuMaps.updateLastSeen_pidRunqLatency (cpu : UInt32) (now : UInt64) :
    (m.updateLastSeen cpu now).pidRunqLatency = m.pidRunqLatency := by
  unfold CpuMaps.updateLastSeen
  split <;> rfl

theorem handleSwitch_wakeupTs : (handleSwitch cfg m prev next seen).1.wakeupTs pid =
    if prev.pid ≠ 0 ∧ cfg.tracksSwitch prev ∧ (seen.preempt ∨ classifyTaskState seen.prevState = stateRunning) ∧
      pid = prev.pid then some seen.now
    else if next.pid ≠ 0 ∧ pid = next.pid then none else m.wakeupTs pid := by
  unfold handleSwitch
  rw [CpuMaps.updateLastSeen_wakeupTs, CpuMaps.switchOut_wakeupTs, CpuMaps.switchIn_wakeupTs,
    CpuMaps.readCounters_wakeupTs]

theorem handleSwitch_pidRunqLatency : (handleSwitch cfg m prev next seen).1.pidRunqLatency pid =
    if prev.pid ≠ 0 ∧ cfg.tracksSwitch prev ∧ seen.reserved ∧ pid = prev.pid then none
    else if next.pid ≠ 0 ∧ pid = next.pid then
      (m.wakeupTs next.pid).elim (m.pidRunqLatency pid) fun wakeTs => some (seen.now - wakeTs)
    else m.pidRunqLatency pid := by
  unfold handleSwitch
  rw [CpuMaps.updateLastSeen_pidRunqLatency, CpuMaps.switchOut_pidRunqLatency, CpuMaps.switchIn_pidRunqLatency,
    CpuMaps.readCounters_wakeupTs, CpuMaps.readCounters_pidRunqLatency]

theorem CpuMaps.updateLastSeen_lastSeen (at_ : UInt32) (now : UInt64) {cpu : UInt32} (hcpu : cpu < lastSeenEntries) :
    (m.updateLastSeen at_ now).lastSeen cpu = if cpu = at_ then now else m.lastSeen cpu := by
  unfold CpuMaps.updateLastSeen
  by_cases hat : at_ < lastSeenEntries
  · rw [if_pos hat]
    exact update_apply ..
  · rw [if_neg hat, if_neg]
    rintro rfl
    exact hat hcpu

theorem handleSwitch_lastSeen {cpu : UInt32} (hcpu : cpu < lastSeenEntries) :
    (handleSwitch cfg m prev next seen).1.lastSeen cpu = if cpu = seen.cpu then seen.now else m.lastSeen cpu := by
  unfold handleSwitch
  rw [CpuMaps.updateLastSeen_lastSeen _ _ _ hcpu, CpuMaps.switchOut_lastSeen, CpuMaps.switchIn_lastSeen,
    CpuMaps.readCounters_lastSeen]

theorem CpuMaps.readCounters_delta : (m.readCounters cfg seen).1.delta seen = m.delta seen := by
  unfold CpuMaps.delta CpuMaps.lookupLastSeen
  rw [CpuMaps.readCounters_lastSeen]

theorem handleSwitch_snd : (handleSwitch cfg m prev next seen).2 =
    (((m.readCounters cfg seen).1.switchIn next seen.now).switchOut cfg prev seen
      ((m.readCounters cfg seen).1.delta seen) (m.readCounters cfg seen).2).2 := rfl

theorem handleSwitch_some (h : (handleSwitch cfg m prev next seen).2 = some ps) :
    prev.pid ≠ 0 ∧ cfg.tracksSwitch prev ∧ seen.reserved ∧ ps.deltaNs = m.delta seen ∧
      ps.runqLatencyNs = ((m.switchIn next seen.now).pidRunqLatency prev.pid).getD 0 ∧
      ps.prevState = classifyTaskState seen.prevState := by
  rw [handleSwitch_snd] at h
  obtain ⟨hpid, htracked, hreserved, hdelta, hlat, hstate⟩ := CpuMaps.switchOut_some _ _ _ _ _ _ h
  refine ⟨hpid, htracked, hreserved, hdelta.trans (CpuMaps.readCounters_delta ..), ?_, hstate⟩
  rw [hlat, CpuMaps.switchIn_pidRunqLatency, CpuMaps.switchIn_pidRunqLatency, CpuMaps.readCounters_wakeupTs,
    CpuMaps.readCounters_pidRunqLatency]

end

theorem classifyTaskState_eq_stateRunning (state : UInt32) : classifyTaskState state = stateRunning ↔
    state &&& (taskInterruptible ||| taskUninterruptible) = 0 := by
  have hsplit : state &&& (taskInterruptible ||| taskUninterruptible) = 0 ↔
      state &&& taskInterruptible = 0 ∧ state &&& taskUninterruptible = 0 := by
    rw [← UInt32.toBitVec_inj, ← UInt32.toBitVec_inj, ← UInt32.toBitVec_inj]
    simp only [UInt32.toBitVec_and, UInt32.toBitVec_or, BitVec.and_or_distrib_left]
    exact BitVec.or_eq_zero_iff
  rw [hsplit]
  unfold classifyTaskState
  by_cases hint : state &&& taskInterruptible = 0
  · by_cases hunint : state &&& taskUninterruptible = 0
    · simp [hint, hunint]
    · simp [hint, hunint, stateUninterruptible, stateRunning]
  · simp [hint, stateInterruptible, stateRunning]

variable {ts : UInt64}

/-! ## Every trace -/

namespace SchedTrace

variable {cfg : CpuConfig} {task : ℕ → Task} {s : SchedTrace}

variable (cfg task s) in
/-- An entry is of a task that is tracked, and says since when it is waiting, or how long it has waited. -/
structure Inv : Prop where
  distinct : ∀ t u, (s.status t).alive → (s.status u).alive → (task t).pid ≠ 0 → (task t).pid = (task u).pid → t = u
  wakeupTs : ∀ pid ts, s.maps.wakeupTs pid = some ts → pid ≠ 0 ∧
    ∃ t, (task t).pid = pid ∧ cfg.tracksSwitch (task t) ∧ s.status t = .waiting (some ts)
  pidRunqLatency : ∀ pid lat, s.maps.pidRunqLatency pid = some lat → pid ≠ 0 ∧
    ∃ t since switchedIn, (task t).pid = pid ∧ cfg.tracksSwitch (task t) ∧
      s.status t = .running (some since) (some switchedIn) ∧ since ≤ switchedIn ∧ lat = switchedIn - since
  waiting_le : ∀ t ts, s.status t = .waiting (some ts) → ts ≤ s.clock
  lastSwitch_le : ∀ cpu last, s.lastSwitch cpu = some last → 0 < last ∧ last ≤ s.clock
  lastSeen : ∀ cpu, cpu < lastSeenEntries → s.maps.lastSeen cpu = (s.lastSwitch cpu).getD 0
  reports : ∀ r ∈ s.reports, Describes r.1 r.2

theorem Initial.inv (h : s.Initial task) : s.Inv cfg task where
  distinct := h.distinct
  wakeupTs := by
    intro pid ts hts
    rw [h.maps] at hts
    cases hts
  pidRunqLatency := by
    intro pid lat hlat
    rw [h.maps] at hlat
    cases hlat
  waiting_le := fun t ts ht => absurd ht (h.waiting t ts)
  lastSwitch_le := by
    intro cpu last hlast
    rw [h.lastSwitch] at hlast
    cases hlast
  lastSeen := by
    intro cpu _
    rw [h.maps, h.lastSwitch]
    rfl
  reports := by
    rw [h.reports]
    exact fun r hr => nomatch hr

theorem Inv.sound (h : s.Inv cfg task) : s.Sound task where
  reports := h.reports
  wakeupTs := by
    intro pid ts hts
    obtain ⟨-, t, hpid, -, ht⟩ := h.wakeupTs pid ts hts
    exact ⟨t, _, hpid, ht⟩
  pidRunqLatency := by
    intro pid lat hlat
    obtain ⟨-, t, since, switchedIn, hpid, -, ht, -⟩ := h.pidRunqLatency pid lat hlat
    exact ⟨t, _, _, hpid, ht⟩

/-! ### Wakeups -/

theorem wakes_of_blocked {p : ℕ} (h : s.status p = .unborn ∨ s.status p = .blocked) :
    s.wakes p ts = update s.status p (.waiting (some ts)) := by
  unfold wakes
  rcases h with h | h
  · rw [h]
  · rw [h]

theorem wakes_cases (p : ℕ) (ts : UInt64) (t : ℕ) : s.wakes p ts t = s.status t ∨
    t = p ∧ (s.status p = .unborn ∨ s.status p = .blocked) ∧ s.wakes p ts t = .waiting (some ts) := by
  by_cases hp : s.status p = .unborn ∨ s.status p = .blocked
  · rw [wakes_of_blocked hp, update_apply]
    by_cases ht : t = p
    · rw [if_pos ht]
      exact .inr ⟨ht, hp, rfl⟩
    · rw [if_neg ht]
      exact .inl rfl
  · left
    unfold wakes
    cases hs : s.status p with
    | unborn => exact absurd (.inl hs) hp
    | blocked => exact absurd (.inr hs) hp
    | waiting since => rfl
    | running since switchedIn => rfl
    | exited => rfl

theorem alive_of_wakes {p : ℕ} {t : ℕ} (h : (s.wakes p ts t).alive) : t = p ∨ (s.status t).alive := by
  rcases wakes_cases (s := s) p ts t with ht | ⟨rfl, -⟩
  · rw [ht] at h
    exact .inr h
  · exact .inl rfl

theorem wakes_running {p : ℕ} {t : ℕ} {since switchedIn : Option UInt64} (h : s.status t = .running since switchedIn) :
    s.wakes p ts t = .running since switchedIn := by
  rcases wakes_cases (s := s) p ts t with ht | ⟨rfl, hp | hp, -⟩
  · rw [ht, h]
  · rw [h] at hp
    cases hp
  · rw [h] at hp
    cases hp

structure Wakeable (task : ℕ → Task) (s : SchedTrace) (p : ℕ) (ts : UInt64) : Prop where
  pid_ne_zero : (task p).pid ≠ 0
  clock_le : s.clock ≤ ts
  unique : ∀ t, (s.status t).alive → (task t).pid = (task p).pid → t = p

theorem Inv.wakeup (h : s.Inv cfg task) {p : ℕ} {ts : UInt64} (hw : Wakeable task s p ts)
    (hmeets : cfg.tracksWakeup (task p) → s.status p = .unborn ∨ s.status p = .blocked) :
    Inv cfg task { s with status := s.wakes p ts, maps := s.maps.wakeup cfg (task p) ts, clock := ts } where
  distinct := by
    intro t u ht hu hpid heq
    rcases alive_of_wakes ht with rfl | halive
    · rcases alive_of_wakes hu with rfl | halive
      · rfl
      · exact (hw.unique u halive heq.symm).symm
    · rcases alive_of_wakes hu with rfl | halive'
      · exact hw.unique t halive heq
      · exact h.distinct t u halive halive' hpid heq
  wakeupTs := by
    intro pid ts' hts
    simp only [CpuMaps.wakeup_wakeupTs] at hts
    -- An entry that was there is of a task that is waiting, and a wakeup lets it wait.
    have hold : s.maps.wakeupTs pid = some ts' → pid ≠ 0 ∧
        ∃ t, (task t).pid = pid ∧ cfg.tracksSwitch (task t) ∧ s.wakes p ts t = .waiting (some ts') := by
      intro hts
      obtain ⟨hpid, t, rfl, htracked, ht⟩ := h.wakeupTs pid ts' hts
      refine ⟨hpid, t, rfl, htracked, ?_⟩
      rcases wakes_cases (s := s) p ts t with heq | ⟨rfl, hp | hp, -⟩
      · rw [heq, ht]
      · rw [ht] at hp
        cases hp
      · rw [ht] at hp
        cases hp
    by_cases htracked : cfg.tracksWakeup (task p)
    · rw [if_pos htracked, update_apply] at hts
      by_cases hpid : pid = (task p).pid
      · rw [if_pos hpid] at hts
        cases hts
        refine ⟨hpid ▸ hw.pid_ne_zero, p, hpid.symm, CpuConfig.tracksSwitch_of_tracksWakeup htracked, ?_⟩
        rw [wakes_of_blocked (hmeets htracked)]
        exact update_self ..
      · rw [if_neg hpid] at hts
        exact hold hts
    · rw [if_neg htracked] at hts
      exact hold hts
  pidRunqLatency := by
    intro pid lat hlat
    simp only [CpuMaps.wakeup_pidRunqLatency] at hlat
    obtain ⟨hpid, t, since, switchedIn, rfl, htracked, ht, hle, hlat⟩ := h.pidRunqLatency pid lat hlat
    exact ⟨hpid, t, since, switchedIn, rfl, htracked, wakes_running ht, hle, hlat⟩
  waiting_le := by
    intro t ts' ht
    rcases wakes_cases (s := s) p ts t with heq | ⟨-, -, heq⟩
    · exact UInt64.le_trans (h.waiting_le t ts' (heq ▸ ht)) hw.clock_le
    · simp only [heq] at ht
      cases ht
      exact UInt64.le_refl _
  lastSwitch_le := by
    intro cpu last hlast
    obtain ⟨hpos, hle⟩ := h.lastSwitch_le cpu last hlast
    exact ⟨hpos, UInt64.le_trans hle hw.clock_le⟩
  lastSeen := by
    intro cpu hcpu
    simp only [CpuMaps.wakeup_lastSeen]
    exact h.lastSeen cpu hcpu
  reports := h.reports

variable {pid : UInt32}

/-! ### Switches -/

variable {lat : UInt64}

section

variable {prev next : ℕ} {seen : SwitchSeen}

theorem Allowed.prev_ne_next (ha : s.Allowed task (.switch prev next seen)) : prev ≠ next := by
  obtain ⟨-, -, ⟨since, switchedIn, hprev⟩, since', hnext⟩ := ha
  rintro rfl
  rw [hprev] at hnext
  cases hnext

variable (cfg task) in
theorem step_status_next {since : Option UInt64} (h : s.status next = .waiting since) :
    (s.step cfg task (.switch prev next seen)).status next = .running since (some seen.now) := by
  refine (update_self ..).trans ?_
  unfold switchedIn
  rw [h]

variable (cfg) in
theorem step_status_prev (ha : s.Allowed task (.switch prev next seen)) :
    (s.step cfg task (.switch prev next seen)).status prev = seen.leftAs := by
  refine (update_of_ne ha.prev_ne_next _ _).trans ?_
  exact update_self ..

theorem step_status_of_ne {t : ℕ} (hprev : t ≠ prev) (hnext : t ≠ next) :
    (s.step cfg task (.switch prev next seen)).status t = s.status t := by
  refine (update_of_ne hnext _ _).trans ?_
  exact update_of_ne hprev _ _

theorem alive_of_switch (ha : s.Allowed task (.switch prev next seen)) {t : ℕ}
    (ht : ((s.step cfg task (.switch prev next seen)).status t).alive) : (s.status t).alive := by
  obtain ⟨-, -, ⟨since, switchedIn, hprev⟩, since', hnext⟩ := ha
  by_cases htnext : t = next
  · subst htnext
    rw [hnext]
    rfl
  · by_cases htprev : t = prev
    · subst htprev
      rw [hprev]
      rfl
    · rw [step_status_of_ne htprev htnext] at ht
      exact ht

theorem Inv.pids_ne (h : s.Inv cfg task) (ha : s.Allowed task (.switch prev next seen)) (hpid : (task prev).pid ≠ 0) :
    (task prev).pid ≠ (task next).pid := by
  have hne := ha.prev_ne_next
  obtain ⟨-, -, ⟨since, switchedIn, hprev⟩, since', hnext⟩ := ha
  intro heq
  refine hne (h.distinct prev next ?_ ?_ hpid heq)
  · rw [hprev]
    rfl
  · rw [hnext]
    rfl

theorem Inv.wakeupTs_next (h : s.Inv cfg task) (ha : s.Allowed task (.switch prev next seen))
    (hts : s.maps.wakeupTs (task next).pid = some ts) :
    cfg.tracksSwitch (task next) ∧ s.status next = .waiting (some ts) := by
  obtain ⟨-, -, -, since, hnext⟩ := ha
  obtain ⟨hpid, t, htpid, htracked, ht⟩ := h.wakeupTs _ ts hts
  have heq : t = next := by
    refine h.distinct t next ?_ ?_ (htpid ▸ hpid) htpid
    · rw [ht]
      rfl
    · rw [hnext]
      rfl
  subst heq
  exact ⟨htracked, ht⟩

theorem Inv.pidRunqLatency_prev (h : s.Inv cfg task) (ha : s.Allowed task (.switch prev next seen))
    (hlat : s.maps.pidRunqLatency (task prev).pid = some lat) : ∃ since switchedIn,
      s.status prev = .running (some since) (some switchedIn) ∧ since ≤ switchedIn ∧ lat = switchedIn - since := by
  obtain ⟨-, -, ⟨since', switchedIn', hprev⟩, -⟩ := ha
  obtain ⟨hpid, t, since, switchedIn, htpid, -, ht, hle, hvalue⟩ := h.pidRunqLatency _ lat hlat
  have heq : t = prev := by
    refine h.distinct t prev ?_ ?_ (htpid ▸ hpid) htpid
    · rw [ht]
      rfl
    · rw [hprev]
      rfl
  subst heq
  exact ⟨since, switchedIn, ht, hle, hvalue⟩

theorem Inv.switch_wakeupTs (h : s.Inv cfg task) (ha : s.Allowed task (.switch prev next seen))
    (hm : s.Meets cfg task (.switch prev next seen))
    (hts : (handleSwitch cfg s.maps (task prev) (task next) seen).1.wakeupTs pid = some ts) : pid ≠ 0 ∧
      ∃ t, (task t).pid = pid ∧ cfg.tracksSwitch (task t) ∧
        (s.step cfg task (.switch prev next seen)).status t = .waiting (some ts) := by
  rw [handleSwitch_wakeupTs] at hts
  split at hts
  · next hprev =>
      obtain ⟨hpid, htracked, hrunning, rfl⟩ := hprev
      cases hts
      refine ⟨hpid, prev, rfl, htracked, ?_⟩
      have hstayed : seen.stayed := by
        rcases hrunning with hpreempt | hclassified
        · unfold SwitchSeen.stayed
          rw [hpreempt]
          rfl
        · rw [classifyTaskState_eq_stateRunning] at hclassified
          exact (hm hpid htracked).1.resolve_right (not_not_intro hclassified)
      rw [step_status_prev cfg ha]
      exact if_pos hstayed
  · split at hts
    · cases hts
    · next hnext =>
        obtain ⟨hpid, t, rfl, htracked, ht⟩ := h.wakeupTs pid ts hts
        refine ⟨hpid, t, rfl, htracked, ?_⟩
        rw [step_status_of_ne ?_ ?_]
        · exact ht
        · rintro rfl
          obtain ⟨-, -, ⟨since, switchedIn, hprev⟩, -⟩ := ha
          rw [hprev] at ht
          cases ht
        · rintro rfl
          exact hnext ⟨hpid, rfl⟩

theorem Inv.switch_pidRunqLatency (h : s.Inv cfg task) (ha : s.Allowed task (.switch prev next seen))
    (hm : s.Meets cfg task (.switch prev next seen))
    (hlat : (handleSwitch cfg s.maps (task prev) (task next) seen).1.pidRunqLatency pid = some lat) : pid ≠ 0 ∧
      ∃ t since switchedIn, (task t).pid = pid ∧ cfg.tracksSwitch (task t) ∧
        (s.step cfg task (.switch prev next seen)).status t = .running (some since) (some switchedIn) ∧
        since ≤ switchedIn ∧ lat = switchedIn - since := by
  -- An entry that was there and stays is of a task that has nothing to do with this switch.
  have hold : s.maps.pidRunqLatency pid = some lat → (¬((task prev).pid ≠ 0 ∧ cfg.tracksSwitch (task prev) ∧
      seen.reserved ∧ pid = (task prev).pid)) → pid ≠ 0 ∧
      ∃ t since switchedIn, (task t).pid = pid ∧ cfg.tracksSwitch (task t) ∧
        (s.step cfg task (.switch prev next seen)).status t = .running (some since) (some switchedIn) ∧
        since ≤ switchedIn ∧ lat = switchedIn - since := by
    intro hentry hprev
    obtain ⟨hpid, t, since, switchedIn, rfl, htracked, ht, hle, heq⟩ := h.pidRunqLatency pid lat hentry
    refine ⟨hpid, t, since, switchedIn, rfl, htracked, ?_, hle, heq⟩
    rw [step_status_of_ne ?_ ?_]
    · exact ht
    · rintro rfl
      rcases (hm hpid htracked).2.1 with hreserved | hnone
      · exact hprev ⟨hpid, htracked, hreserved, rfl⟩
      · rw [hentry] at hnone
        cases hnone
    · rintro rfl
      obtain ⟨-, -, -, since, hnext⟩ := ha
      rw [hnext] at ht
      cases ht
  rw [handleSwitch_pidRunqLatency] at hlat
  split at hlat
  · cases hlat
  · next hprev =>
      split at hlat
      · next hnext =>
          obtain ⟨hpid, rfl⟩ := hnext
          cases hts : s.maps.wakeupTs (task next).pid with
          | none =>
            rw [hts] at hlat
            exact hold hlat hprev
          | some ts =>
            rw [hts] at hlat
            cases hlat
            obtain ⟨htracked, hwaiting⟩ := h.wakeupTs_next ha hts
            refine ⟨hpid, next, ts, seen.now, rfl, htracked, step_status_next cfg task hwaiting, ?_, rfl⟩
            exact UInt64.le_trans (h.waiting_le next ts hwaiting) ha.2.1
      · exact hold hlat hprev

theorem Inv.delta_eq (h : s.Inv cfg task) (ha : s.Allowed task (.switch prev next seen))
    (hcpu : seen.cpu < lastSeenEntries ∨ s.lastSwitch seen.cpu = none) : (s.maps.delta seen).toNat =
      ((s.lastSwitch seen.cpu).map fun last => seen.now.toNat - last.toNat).getD 0 := by
  unfold CpuMaps.delta CpuMaps.lookupLastSeen
  by_cases hslot : seen.cpu < lastSeenEntries
  · rw [if_pos hslot, h.lastSeen _ hslot]
    cases hlast : s.lastSwitch seen.cpu with
    | none => rfl
    | some last =>
      obtain ⟨hpos, hle⟩ := h.lastSwitch_le _ last hlast
      have hne : last ≠ 0 := by
        rintro rfl
        exact absurd hpos (by decide)
      simp only [Option.getD_some, Option.map_some, if_pos hne]
      exact UInt64.toNat_sub_of_le _ _ (UInt64.le_trans hle ha.2.1)
  · rw [if_neg hslot, hcpu.resolve_left hslot]
    rfl

theorem Inv.describes (h : s.Inv cfg task) (ha : s.Allowed task (.switch prev next seen))
    (hm : s.Meets cfg task (.switch prev next seen))
    (hps : (handleSwitch cfg s.maps (task prev) (task next) seen).2 = some ps) :
    Describes ps (s.switchOut prev seen) := by
  obtain ⟨hpid, htracked, hreserved, hdelta, hlat, hstate⟩ := handleSwitch_some _ _ _ _ _ hps
  obtain ⟨hasleep, -, hrest⟩ := hm hpid htracked
  obtain ⟨hpreempt, hcpu⟩ := hrest hreserved
  refine ⟨fun hne => ?_, ?_, ?_⟩
  · rw [CpuMaps.switchIn_pidRunqLatency, if_neg fun hnext => h.pids_ne ha hpid hnext.2] at hlat
    cases hv : s.maps.pidRunqLatency (task prev).pid with
    | none =>
      rw [hv] at hlat
      exact absurd hlat hne
    | some lat =>
      rw [hv] at hlat
      obtain ⟨since, switchedIn, hprev, hle, rfl⟩ := h.pidRunqLatency_prev ha hv
      refine ⟨since, switchedIn, ?_, ?_, ?_⟩
      · unfold switchOut
        rw [hprev]
      · unfold switchOut
        rw [hprev]
      · rw [hlat]
        exact UInt64.toNat_sub_of_le _ _ hle
  · rw [hdelta]
    exact h.delta_eq ha hcpu
  · rw [hstate, classifyTaskState_eq_stateRunning]
    show _ ↔ seen.stayed = true
    constructor
    · intro hbits
      exact hasleep.resolve_right (not_not_intro hbits)
    · intro hstayed
      rcases Bool.or_eq_true _ _ |>.mp hstayed with hp | hzero
      · exact hpreempt hp
      · rw [of_decide_eq_true hzero]
        exact UInt32.zero_and

theorem Inv.switch (h : s.Inv cfg task) (ha : s.Allowed task (.switch prev next seen))
    (hm : s.Meets cfg task (.switch prev next seen)) : (s.step cfg task (.switch prev next seen)).Inv cfg task where
  distinct := fun t u ht hu => h.distinct t u (alive_of_switch ha ht) (alive_of_switch ha hu)
  wakeupTs := fun pid ts hts => h.switch_wakeupTs ha hm hts
  pidRunqLatency := fun pid lat hlat => h.switch_pidRunqLatency ha hm hlat
  waiting_le := by
    intro t ts ht
    show ts ≤ seen.now
    by_cases hnext : t = next
    · subst hnext
      obtain ⟨-, -, -, since, hwaiting⟩ := ha
      rw [step_status_next cfg task hwaiting] at ht
      cases ht
    · by_cases hprev : t = prev
      · subst hprev
        rw [step_status_prev cfg ha] at ht
        unfold SwitchSeen.leftAs at ht
        split at ht
        · cases ht
          exact UInt64.le_refl _
        · split at ht
          · cases ht
          · cases ht
      · rw [step_status_of_ne hprev hnext] at ht
        exact UInt64.le_trans (h.waiting_le t ts ht) ha.2.1
  lastSwitch_le := by
    intro cpu last hlast
    change update s.lastSwitch seen.cpu (some seen.now) cpu = some last at hlast
    show 0 < last ∧ last ≤ seen.now
    rw [update_apply] at hlast
    split at hlast
    · cases hlast
      exact ⟨ha.1, UInt64.le_refl _⟩
    · obtain ⟨hpos, hle⟩ := h.lastSwitch_le cpu last hlast
      exact ⟨hpos, UInt64.le_trans hle ha.2.1⟩
  lastSeen := by
    intro cpu hcpu
    show (handleSwitch cfg s.maps (task prev) (task next) seen).1.lastSeen cpu =
      (update s.lastSwitch seen.cpu (some seen.now) cpu).getD 0
    rw [handleSwitch_lastSeen _ _ _ _ _ hcpu, update_apply]
    split
    · rfl
    · exact h.lastSeen cpu hcpu
  reports := by
    intro r hr
    rcases List.mem_append.mp hr with hr | hr
    · exact h.reports r hr
    · rw [Option.mem_toList] at hr
      obtain ⟨ps, hps, rfl⟩ := Option.map_eq_some_iff.mp hr
      exact h.describes ha hm hps

end

theorem Inv.step (h : s.Inv cfg task) {e : SchedEvent} (ha : s.Allowed task e) (hm : s.Meets cfg task e) :
    (s.step cfg task e).Inv cfg task := by
  cases e with
  | wakeup p ts =>
    obtain ⟨-, hclock, halive, hpid⟩ := ha
    refine h.wakeup ⟨hpid, hclock, ?_⟩ fun htracked => .inr (hm htracked)
    intro t ht heq
    exact h.distinct t p ht halive (heq ▸ hpid) heq
  | wakeupNew p ts =>
    obtain ⟨-, hclock, hunborn, hpid, hfresh⟩ := ha
    refine h.wakeup ⟨hpid, hclock, ?_⟩ fun _ => .inl hunborn
    intro t ht heq
    exact absurd heq (hfresh t ht)
  | switch prev next seen => exact h.switch ha hm

end SchedTrace

open SchedTrace in
/-- In every trace of a scheduler whose events all go well, the records that were sent say what has happened, and
the two maps have entries only for tasks that are waiting, and that are running, at every time. -/
theorem schedStats_sound (cfg : CpuConfig) (task : ℕ → Task) (s : SchedTrace) (as : List SchedEvent)
    (hinit : s.Initial task)
    (ha : Along (SchedTrace.step cfg task) (fun s e => s.Allowed task e ∧ s.Meets cfg task e) s as) :
    (as.foldl (SchedTrace.step cfg task) s).Sound task := by
  have h₀ : s.Inv cfg task := hinit.inv
  have hinv := Along.invariant (I := fun _ s => s.Inv cfg task) h₀ (fun _ s e h hP => h.step hP.1 hP.2) ha
  exact hinv.sound

/-! A process that is woken, runs, and goes. -/

def idleAndSeven (t : ℕ) : Task :=
  if t = 1 then { pid := 7, tgid := 7, flags := 0 } else { pid := 0, tgid := 0, flags := pfKthread }

def idleCpu : SchedTrace :=
  { status := fun t => if t = 0 then .running none none else if t = 1 then .blocked else .unborn }

def everyTgid : CpuConfig := { systemWide := true, hwCountersEnabled := false, pidFilter := fun _ => false }

def switchAt (now : UInt64) (prevState : UInt32) : SwitchSeen where
  now := now
  cpu := 0
  preempt := false
  prevState := prevState
  reserved := true
  cycles := none
  instructions := none
  cacheMisses := none

def wokenAndRun (prevState : UInt32) : List SchedEvent :=
  [.wakeup 1 10, .switch 0 1 (switchAt 15 0), .switch 1 0 (switchAt 40 prevState)]

theorem initial_idleCpu : idleCpu.Initial idleAndSeven := by
  refine ⟨fun t u ht hu hpid heq => ?_, fun t ts ht => ?_, rfl, rfl, rfl⟩
  · have hone : ∀ t, (idleAndSeven t).pid ≠ 0 → t = 1 := by
      intro t hpid
      by_contra hne
      exact hpid (by simp [idleAndSeven, hne])
    rw [hone t hpid, hone u (heq ▸ hpid)]
  · simp only [idleCpu] at ht
    split at ht
    · cases ht
    · split at ht
      · cases ht
      · cases ht

theorem allowed_wokenAndRun (prevState : UInt32) :
    Along (SchedTrace.step everyTgid idleAndSeven) (SchedTrace.Allowed idleAndSeven) idleCpu
      (wokenAndRun prevState) := by
  refine ⟨⟨by decide, by decide, rfl, by decide⟩, ⟨by decide, by decide, ⟨none, none, rfl⟩, some 10, rfl⟩,
    ⟨?_, ?_, ⟨some 10, some 15, rfl⟩, some 15, rfl⟩, trivial⟩
  · show (0 : UInt64) < 40
    decide
  · show (15 : UInt64) ≤ 40
    decide

/-- The process goes to sleep. -/
theorem schedStats_sound_asleep :
    ((wokenAndRun 1).foldl (SchedTrace.step everyTgid idleAndSeven) idleCpu).Sound idleAndSeven ∧
      ((wokenAndRun 1).foldl (SchedTrace.step everyTgid idleAndSeven) idleCpu).reports.map
        (fun r => (r.1.runqLatencyNs, r.1.deltaNs, r.1.prevState)) = [(5, 25, stateInterruptible)] := by
  refine ⟨schedStats_sound everyTgid idleAndSeven idleCpu _ initial_idleCpu ?_, by decide⟩
  obtain ⟨hwakeup, hin, hout, -⟩ := allowed_wokenAndRun 1
  refine ⟨⟨hwakeup, fun _ => rfl⟩, ⟨hin, fun hpid => absurd rfl hpid⟩, ⟨hout, fun _ _ => ⟨.inr ?_, .inl rfl, ?_⟩⟩, trivial⟩
  · decide
  · exact fun _ => ⟨fun h => (by cases h), .inl (by decide)⟩

/-- The process is stopped: it is reported as one that is still runnable, and has a wakeup time. -/
theorem not_sound_stopped : idleCpu.Initial idleAndSeven ∧
    Along (SchedTrace.step everyTgid idleAndSeven) (SchedTrace.Allowed idleAndSeven) idleCpu (wokenAndRun 4) ∧
    ¬((wokenAndRun 4).foldl (SchedTrace.step everyTgid idleAndSeven) idleCpu).Sound idleAndSeven := by
  refine ⟨initial_idleCpu, allowed_wokenAndRun 4, fun h => ?_⟩
  have hreport := h.reports ⟨⟨7, 25, 5, 0, 0, 0, 40, 0, 0⟩, ⟨some 10, some 15, some 15, 40, false⟩⟩ (by
    exact List.mem_singleton.mpr rfl)
  exact absurd (hreport.state.mp rfl) (by decide)

end PerfAgent.Bpf
