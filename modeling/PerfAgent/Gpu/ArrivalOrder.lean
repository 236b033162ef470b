import PerfAgent.Gpu.ModuleJoinOrder
import PerfAgent.Gpu.SnapshotRecord
import PerfAgent.Gpu.SnapshotStatistics

/-!
# The PC join does not depend on the order of arrival

Two timelines that received the same records in two orders, and evicted none of them, hold the
same executions and the same groups of samples.  `Received` says what a timeline that has only
received knows of the records: which devices a process was seen on and what its graph reports
add up to, as long as all processes found room in the two trackers, and that no group is empty.
-/

namespace PerfAgent.Gpu

open List AssocMap

/-! ## No group is empty -/

namespace PendingIndex

variable {K : Type} [DecidableEq K] {keyOf : GPUPCSample → Option K} {idx : PendingIndex K}

def Filled (idx : PendingIndex K) : Prop :=
  ∀ k v, idx.store.byKey.find? k = some v → v.samples ≠ []

theorem Filled.setEntry (h : Filled idx) {k : K} {v : PendingSamples} {total : Nat}
    (hv : v.samples ≠ []) : Filled (idx.setEntry k v total) := by
  intro k' w hw
  rw [PendingIndex.setEntry, find?_put] at hw
  split at hw
  · cases hw
    exact hv
  · exact h k' w hw

theorem Filled.append (h : Filled idx) {sampleCap : Nat} (hcap : 0 < sampleCap) (k : K)
    (e : Emission) : Filled (idx.append sampleCap k e).1 := by
  unfold PendingIndex.append
  by_cases hfull : (idx.entryFor k).2.samples.length ≥ sampleCap
  · simp only [if_pos hfull]
    exact h.setEntry (ne_nil_of_length_pos (Nat.lt_of_lt_of_le hcap hfull))
  · simp only [if_neg hfull]
    exact h.setEntry (append_ne_nil_of_right_ne_nil _ (cons_ne_nil _ _))

theorem Filled.evict (h : Filled idx) (hs : Sound keyOf idx) (cap newest horizon : Nat) :
    Filled (idx.evict cap newest horizon).1 := by
  obtain ⟨-, -, -, m, hd, hd'⟩ := hs.wf.evict_spec cap newest horizon
  exact fun k v hv => h k v (hd.find?_of_left (hd'.find?_of_left hv))

theorem Filled.emit (h : Filled idx) (hs : Sound keyOf idx) {sampleCap : Nat} (hcap : 0 < sampleCap)
    (cap newest horizon : Nat) {k : K} {e : Emission} (hk : keyOf e.sample = some k) :
    Filled (idx.emit cap sampleCap newest horizon k e).1 :=
  (h.append hcap k e).evict (hs.append sampleCap hk).1 cap newest horizon

theorem Sound.content_eq (h : Sound keyOf idx) (hf : Filled idx) (k : K) : idx.content k =
      if ((idx.held.map Emission.sample).filter fun p => keyOf p = some k) = 0 then none
      else some ((idx.held.map Emission.sample).filter fun p => keyOf p = some k) := by
  cases hk : idx.store.byKey.find? k with
  | none =>
    have hnone : ((idx.held.map Emission.sample).filter fun p => keyOf p = some k) = 0 := by
      refine Multiset.filter_eq_nil.mpr fun p hp heq => ?_
      obtain ⟨e, he, rfl⟩ := Multiset.mem_map.mp hp
      obtain ⟨k', v, hv, hev⟩ := mem_held.mp he
      cases (h.keyed k' v hv e hev).symm.trans heq
      cases hk.symm.trans hv
    rw [if_pos hnone, content, hk]
    rfl
  | some v =>
    -- the other groups are under other keys
    have hrest : (((idx.consume k v).held.map Emission.sample).filter fun p => keyOf p = some k) = 0 := by
      refine Multiset.filter_eq_nil.mpr fun p hp heq => ?_
      obtain ⟨e, he, rfl⟩ := Multiset.mem_map.mp hp
      obtain ⟨k', w, hw, hew⟩ := mem_held.mp he
      obtain ⟨hne, hw'⟩ := find?_del_eq_some.mp hw
      exact hne (Option.some.inj ((h.keyed k' w hw' e hew).symm.trans heq))
    have hgroup : ((idx.held.map Emission.sample).filter fun p => keyOf p = some k) =
        (v.samples.map Emission.sample : List GPUPCSample) := by
      rw [(h.consume hk).2, Multiset.map_add, Multiset.filter_add, hrest, add_zero, Multiset.map_coe]
      refine Multiset.filter_eq_self.mpr fun p hp => ?_
      obtain ⟨e, he, rfl⟩ := mem_map.mp (Multiset.mem_coe.mp hp)
      exact h.keyed k v hk e he
    have hne : v.samples.map Emission.sample ≠ [] := fun hnil =>
      hf k v hk (map_eq_nil_iff.mp hnil)
    rw [hgroup, if_neg (fun hz => hne (Multiset.coe_eq_zero _ |>.mp hz)), content, hk]
    rfl

end PendingIndex

/-! ## The devices of a process -/

variable (pid : Nat)

def devicesOf (execs : List GPUKernelExec) : List String :=
  (execs.map fun e => (e.correlation.pid, execDeviceID e)).filterMap fun d =>
    if d.1 = pid ∧ d.2 ≠ "" then some d.2 else none

/-- What is remembered of a process that was seen on some devices, in the order they were
seen. -/
def processDevices : List String → Option ProcessDevices
  | [] => none
  | d :: ds => some { first := d, multi := ds.any (· != d) }

variable (ds : List String)

theorem isSome_processDevices : (processDevices ds).isSome = !ds.isEmpty := by
  cases ds <;> rfl

theorem multi_processDevices : ((processDevices ds).getD {}).multi = true ↔ ∃ a ∈ ds, ∃ b ∈ ds, a ≠ b := by
  cases ds with
  | nil => simp [processDevices]
  | cons d ds =>
    simp only [processDevices, Option.getD_some, any_eq_true, bne_iff_ne]
    constructor
    · rintro ⟨b, hb, hne⟩
      exact ⟨b, mem_cons_of_mem _ hb, d, mem_cons_self, hne⟩
    · rintro ⟨a, ha, b, hb, hne⟩
      rcases mem_cons.mp ha with rfl | ha
      · rcases mem_cons.mp hb with rfl | hb
        · exact absurd rfl hne
        · exact ⟨b, hb, hne.symm⟩
      · by_cases had : a = d
        · subst had
          rcases mem_cons.mp hb with rfl | hb
          · exact absurd rfl hne
          · exact ⟨b, hb, hne.symm⟩
        · exact ⟨a, ha, had⟩

theorem multi_processDevices_perm {ds ds' : List String} (h : ds.Perm ds') :
    (processDevices ds).map (fun d => d.multi.toNat) = (processDevices ds').map fun d => d.multi.toNat := by
  have hmulti : ((processDevices ds).getD {}).multi = ((processDevices ds').getD {}).multi := by
    rw [Bool.eq_iff_iff, multi_processDevices, multi_processDevices]
    simp only [h.mem_iff]
  have hsome : (processDevices ds).isSome = (processDevices ds').isSome := by
    rw [isSome_processDevices, isSome_processDevices, h.isEmpty_eq]
  cases hd : processDevices ds <;> cases hd' : processDevices ds' <;> simp_all

theorem processDevices_snoc {ds : List String} {cur : ProcessDevices} (h : processDevices ds = some cur) (d : String) :
    processDevices (ds ++ [d]) =
      some (if cur.multi = true ∨ cur.first = d then cur else { cur with multi := true }) := by
  cases ds with
  | nil => cases h
  | cons a ds =>
    cases h
    rw [cons_append, processDevices, any_append, any_cons, any_nil, Bool.or_false]
    by_cases hc : ds.any (· != a) = true ∨ a = d
    · rw [if_pos hc]
      rcases hc with hc | rfl
      · rw [hc, Bool.true_or]
      · rw [bne_self_eq_false, Bool.or_false]
    · rw [if_neg hc]
      have hne : (d != a) = true := bne_iff_ne.mpr fun heq => hc (.inr heq.symm)
      rw [hne, Bool.or_true]

theorem devicesOf_snoc (execs : List GPUKernelExec) (e : GPUKernelExec) :
    devicesOf pid (execs ++ [e]) = devicesOf pid execs ++
      if e.correlation.pid = pid ∧ execDeviceID e ≠ "" then [execDeviceID e] else [] := by
  rw [devicesOf, devicesOf, map_append, filterMap_append]
  refine congrArg _ ?_
  by_cases hc : e.correlation.pid = pid ∧ execDeviceID e ≠ ""
  · simp [hc]
  · simp [hc]

/-- The tracker of the devices remembers what the executions named. -/
structure SeenDevices (execs : List GPUKernelExec) (t : Timeline) : Prop where
  found : ∀ pid, t.devicesByPID.find? pid = processDevices (devicesOf pid execs)
  count : t.multiDeviceProcesses = t.devicesByPID.sum fun d => d.multi.toNat

variable {execs : List GPUKernelExec}

theorem SeenDevices.observe {t : Timeline} (h : t.deviceTrackingCapped = 0 → SeenDevices execs t) (e : GPUKernelExec)
    (hroom : (t.observeExecDeviceLocked e).deviceTrackingCapped = 0) :
    SeenDevices (execs ++ [e]) (t.observeExecDeviceLocked e) := by
  unfold Timeline.observeExecDeviceLocked at hroom ⊢
  dsimp only at hroom ⊢
  by_cases hnone : execDeviceID e = ""
  · rw [if_pos hnone] at hroom ⊢
    refine ⟨fun pid => ?_, (h hroom).count⟩
    rw [devicesOf_snoc, if_neg (fun hc => hc.2 hnone), append_nil, (h hroom).found]
  rw [if_neg hnone] at hroom ⊢
  -- the processes that the execution is not of
  have hother : ∀ pid, pid ≠ e.correlation.pid → devicesOf pid (execs ++ [e]) = devicesOf pid execs := fun pid hne => by
    rw [devicesOf_snoc, if_neg (fun hc => hne hc.1.symm), append_nil]
  have hthis : devicesOf e.correlation.pid (execs ++ [e]) = devicesOf e.correlation.pid execs ++ [execDeviceID e] := by
    rw [devicesOf_snoc, if_pos ⟨rfl, hnone⟩]
  cases hf : t.devicesByPID.find? e.correlation.pid with
  | none =>
    rw [hf] at hroom
    dsimp only at hroom ⊢
    split at hroom
    · exact absurd hroom (Nat.succ_ne_zero _)
    next hfull =>
    rw [if_neg hfull]
    replace h := h hroom
    refine ⟨fun pid => ?_, ?_⟩
    · change (t.devicesByPID.put _ _).find? pid = _
      rw [find?_put]
      split
      · next heq =>
          have hnil : devicesOf e.correlation.pid execs = [] := by
            have hp := (h.found e.correlation.pid).symm.trans hf
            cases hd : devicesOf e.correlation.pid execs with
            | nil => rfl
            | cons d ds =>
              rw [hd] at hp
              cases hp
          rw [heq, hthis, hnil]
          rfl
      · next hne => rw [hother pid hne, h.found]
    · change _ = (t.devicesByPID.put _ _).sum _
      rw [sum_put_of_find?_eq_none _ hf, ← h.count]
      exact (Nat.zero_add _).symm
  | some cur =>
    rw [hf] at hroom
    dsimp only at hroom ⊢
    by_cases hc : cur.multi = true ∨ cur.first = execDeviceID e
    · rw [if_pos hc] at hroom ⊢
      replace h := h hroom
      have hsnoc := processDevices_snoc ((h.found _).symm.trans hf) (execDeviceID e)
      rw [if_pos hc] at hsnoc
      refine ⟨fun pid => ?_, h.count⟩
      by_cases hp : pid = e.correlation.pid
      · rw [hp, hthis, hsnoc, hf]
      · rw [hother pid hp, h.found]
    · rw [if_neg hc] at hroom ⊢
      replace h := h hroom
      have hsnoc := processDevices_snoc ((h.found _).symm.trans hf) (execDeviceID e)
      rw [if_neg hc] at hsnoc
      refine ⟨fun pid => ?_, ?_⟩
      · change (t.devicesByPID.put _ _).find? pid = _
        rw [find?_put]
        split
        · next heq => rw [heq, hthis, hsnoc]
        · next hne => rw [hother pid hne, h.found]
      · change t.multiDeviceProcesses + 1 = (t.devicesByPID.put _ _).sum _
        have hsingle : cur.multi = false := Bool.eq_false_of_not_eq_true fun hm => hc (.inl hm)
        rw [sum_put, h.count, sum_of_find? _ hf, hsingle, Bool.toNat_false, Nat.zero_add, Nat.add_comm]
        rfl

/-! ## The graph reports of a process -/

def reportedBy (reports : List GPUGraphExecutions) : Nat :=
  (reports.map fun g => if g.pid = pid then g.count.toNat else 0).sum

structure SeenGraphs (reports : List GPUGraphExecutions) (t : Timeline) : Prop where
  sums : ∀ pid, pid ≠ 0 → ((t.graphExecsByPID.find? pid).getD 0).toNat = reportedBy pid reports % 2 ^ 64
  zero : t.graphExecsByPID.find? 0 = none
  all : t.graphExecAllPIDs = reports.any fun g => g.pid == 0 && g.count != 0

theorem reportedBy_snoc (reports : List GPUGraphExecutions) (g : GPUGraphExecutions) :
    reportedBy pid (reports ++ [g]) = reportedBy pid reports + if g.pid = pid then g.count.toNat else 0 := by
  simp [reportedBy]

theorem SeenGraphs.put {reports : List GPUGraphExecutions} {t t' : Timeline}
    (h : SeenGraphs reports t) {g : GPUGraphExecutions} (hpid : g.pid ≠ 0)
    (hby : t'.graphExecsByPID = t.graphExecsByPID.put g.pid ((t.graphExecsByPID.find? g.pid).getD 0 + g.count))
    (hall : t'.graphExecAllPIDs = t.graphExecAllPIDs) : SeenGraphs (reports ++ [g]) t' where
  sums := by
    intro pid hp
    rw [hby, find?_put, reportedBy_snoc]
    by_cases hg : pid = g.pid
    · rw [if_pos hg, if_pos hg.symm, Option.getD_some, UInt64.toNat_add, ← hg, h.sums pid hp,
        Nat.mod_add_mod]
    · rw [if_neg hg, if_neg (Ne.symm hg), Nat.add_zero, h.sums pid hp]
  zero := by
    rw [hby, find?_put, if_neg (Ne.symm hpid), h.zero]
  all := by
    rw [hall, h.all, any_append]
    simp [hpid]

theorem SeenGraphs.emit {reports : List GPUGraphExecutions} {t : Timeline}
    (h : t.graphExecTrackingCapped = 0 → SeenGraphs reports t) (g : GPUGraphExecutions)
    (hroom : (t.emitGraphExecutions g).graphExecTrackingCapped = 0) :
    SeenGraphs (reports ++ [g]) (t.emitGraphExecutions g) := by
  unfold Timeline.emitGraphExecutions at hroom ⊢
  by_cases hz : g.count = 0
  · rw [if_pos hz] at hroom ⊢
    refine ⟨fun pid hp => ?_, (h hroom).zero, ?_⟩
    · rw [reportedBy_snoc, hz, (h hroom).sums pid hp]
      split <;> rfl
    · rw [(h hroom).all, any_append]
      simp [hz]
  rw [if_neg hz] at hroom ⊢
  dsimp only at hroom ⊢
  by_cases hp : g.pid = 0
  · rw [if_pos hp] at hroom ⊢
    refine ⟨fun pid hne => ?_, (h hroom).zero, ?_⟩
    · rw [reportedBy_snoc, if_neg (fun heq => hne (heq.symm.trans hp)), Nat.add_zero]
      exact (h hroom).sums pid hne
    · rw [any_append]
      simp [hp, hz]
  rw [if_neg hp] at hroom ⊢
  cases hf : t.graphExecsByPID.find? g.pid with
  | some n =>
    rw [hf] at hroom
    exact (h hroom).put hp (by rw [hf]; rfl) rfl
  | none =>
    rw [hf] at hroom
    dsimp only at hroom ⊢
    split at hroom
    · exact absurd hroom (Nat.succ_ne_zero _)
    next hfull =>
    rw [if_neg hfull]
    exact (h hroom).put hp (by rw [hf, Option.getD_none, UInt64.zero_add]) rfl

/-! ## What a timeline has received -/

def Action.report? : Action → Option GPUGraphExecutions
  | .call (.graphExecutions g) => some g
  | _ => none

/-- A timeline that has received the calls of `as` and given no snapshot. -/
structure Received (cfg : TimelineConfig) (as : List Action) (s : System) : Prop where
  phase : s.phase = .idle
  taken : s.taken = []
  tier : s.timeline.pcSampling = cfg.pcSampling
  cap : 0 < s.timeline.pendingSampleCap
  filled : s.timeline.pending.Filled
  filledModule : s.timeline.pendingModule.Filled
  devices : s.timeline.deviceTrackingCapped = 0 → SeenDevices (as.filterMap Action.exec?) s.timeline
  graphs : s.timeline.graphExecTrackingCapped = 0 → SeenGraphs (as.filterMap Action.report?) s.timeline

theorem received_new (cfg : TimelineConfig) : Received cfg [] (System.new cfg) where
  phase := rfl
  taken := rfl
  tier := rfl
  cap := by
    change 0 < if cfg.maxPendingSamplesPerCorrelation ≤ 0 then _ else _
    split
    · decide
    · omega
  filled := nofun
  filledModule := nofun
  devices := fun _ => ⟨fun _ => rfl, rfl⟩
  graphs := fun _ => ⟨fun _ _ => rfl, rfl, rfl⟩

variable {as : List Action} {cfg : TimelineConfig}

theorem Received.frame {s : System} {a : Action} {t : Timeline} {n : Nat} (h : Received cfg as s)
    (hexec : a.exec? = none) (hreport : a.report? = none)
    (ht : t.pcSampling = s.timeline.pcSampling ∧ t.pendingSampleCap = s.timeline.pendingSampleCap ∧
      t.devicesByPID = s.timeline.devicesByPID ∧
      t.multiDeviceProcesses = s.timeline.multiDeviceProcesses ∧
      t.deviceTrackingCapped = s.timeline.deviceTrackingCapped ∧
      t.graphExecsByPID = s.timeline.graphExecsByPID ∧
      t.graphExecAllPIDs = s.timeline.graphExecAllPIDs ∧
      t.graphExecTrackingCapped = s.timeline.graphExecTrackingCapped) (hfilled : t.pending.Filled)
    (hfilledModule : t.pendingModule.Filled) : Received cfg (as ++ [a]) { s with timeline := t, pcCalls := n } := by
  obtain ⟨htier, hcap, hdevices, hmulti, hcapped, hgraphs, hall, hgraphCapped⟩ := ht
  refine ⟨h.phase, h.taken, htier.trans h.tier, hcap ▸ h.cap, hfilled, hfilledModule, fun hz => ?_, fun hz => ?_⟩
  · have hseen := h.devices (hcapped ▸ hz)
    rw [filterMap_snoc_none hexec]
    exact ⟨fun pid => by rw [hdevices, hseen.found], by rw [hmulti, hdevices, hseen.count]⟩
  · have hseen := h.graphs (hgraphCapped ▸ hz)
    rw [filterMap_snoc_none hreport]
    exact ⟨by rw [hgraphs]; exact hseen.sums, by rw [hgraphs, hseen.zero], by rw [hall, hseen.all]⟩

theorem Received.exec {cfg : TimelineConfig} {as : List Action} {s : System}
    (h : Received cfg as s) (e : GPUKernelExec) (n : Nat) :
    Received cfg (as ++ [.call (.exec e)]) { s with timeline := s.timeline.emitExec e, pcCalls := n } := by
  have heq : ∃ p, s.timeline.emitExec e = { s.timeline.observeExecDeviceLocked e with
      execs := ((s.timeline.observeExecDeviceLocked e).execs.push e).1
      dropped := { (s.timeline.observeExecDeviceLocked e).dropped with
        evictedExecutions := (s.timeline.observeExecDeviceLocked e).dropped.evictedExecutions +
          ((s.timeline.observeExecDeviceLocked e).execs.push e).2.toNat }
      pressure := p } :=
    ⟨_, by rw [Timeline.emitExec]; exact Timeline.notePressure_eq _ _⟩
  obtain ⟨p, heq⟩ := heq
  obtain ⟨d, m, c, hframe⟩ := s.timeline.observeExecDeviceLocked_eq e
  have hseen := SeenDevices.observe h.devices e
  rw [heq]
  rw [hframe] at hseen ⊢
  refine ⟨h.phase, h.taken, h.tier, h.cap, h.filled, h.filledModule, fun hz => ?_, fun hz => ?_⟩
  · rw [filterMap_snoc_some (f := Action.exec?) rfl]
    exact ⟨(hseen hz).found, (hseen hz).count⟩
  · rw [filterMap_snoc_none (f := Action.report?) rfl]
    exact ⟨(h.graphs hz).sums, (h.graphs hz).zero, (h.graphs hz).all⟩

theorem Received.graphExecutions {cfg : TimelineConfig} {as : List Action} {s : System}
    (h : Received cfg as s) (g : GPUGraphExecutions) (n : Nat) :
    Received cfg (as ++ [.call (.graphExecutions g)])
      { s with timeline := s.timeline.emitGraphExecutions g, pcCalls := n } := by
  obtain ⟨b, m, p, u, c, a, heq⟩ := s.timeline.emitGraphExecutions_eq g
  have hseen := SeenGraphs.emit h.graphs g
  rw [heq] at hseen ⊢
  refine ⟨h.phase, h.taken, h.tier, h.cap, h.filled, h.filledModule, fun hz => ?_, fun hz => ?_⟩
  · rw [filterMap_snoc_none (f := Action.exec?) rfl]
    exact ⟨(h.devices hz).found, (h.devices hz).count⟩
  · rw [filterMap_snoc_some (f := Action.report?) rfl]
    exact hseen hz

theorem Received.pcSample {cfg : TimelineConfig} {as : List Action} {s : System}
    (h : Received cfg as s) (hc : Conserved as s) (p : GPUPCSample) (n : Nat) :
    Received cfg (as ++ [.call (.pcSample p)])
      { s with timeline := s.timeline.emitPCSample ⟨p, s.pcCalls⟩, pcCalls := n } := by
  obtain ⟨newest, heq⟩ := s.timeline.emitPCSample_eq ⟨p, s.pcCalls⟩
  rw [heq]
  cases hp : p.correlation.present with
  | true =>
    rw [if_pos rfl]
    exact h.frame rfl rfl ⟨rfl, rfl, rfl, rfl, rfl, rfl, rfl, rfl⟩
      (h.filled.emit hc.pending h.cap _ _ _ (exactKey_eq_some.mpr ⟨hp, rfl⟩)) h.filledModule
  | false =>
    rw [if_neg Bool.false_ne_true]
    exact h.frame rfl rfl ⟨rfl, rfl, rfl, rfl, rfl, rfl, rfl, rfl⟩ h.filled
      (h.filledModule.emit hc.pendingModule h.cap _ _ _ (moduleKey_eq_some.mpr ⟨hp, rfl⟩))

theorem Received.call {cfg : TimelineConfig} {as : List Action} {s : System}
    (h : Received cfg as s) (hc : Conserved as s) (c : Call) (n : Nat) :
    Received cfg (as ++ [.call c]) { s with timeline := s.timeline.call s.pcCalls c, pcCalls := n } := by
  cases c with
  | launch l => exact h.frame rfl rfl ⟨rfl, rfl, rfl, rfl, rfl, rfl, rfl, rfl⟩ h.filled h.filledModule
  | exec e => exact h.exec e n
  | pcSample p => exact h.pcSample hc p n
  | module m =>
    obtain ⟨p, heq⟩ := s.timeline.emitModule_eq m
    rw [Timeline.call, heq]
    exact h.frame rfl rfl ⟨rfl, rfl, rfl, rfl, rfl, rfl, rfl, rfl⟩ h.filled h.filledModule
  | event e =>
    obtain ⟨p, heq⟩ := s.timeline.emitEvent_eq e
    rw [Timeline.call, heq]
    exact h.frame rfl rfl ⟨rfl, rfl, rfl, rfl, rfl, rfl, rfl, rfl⟩ h.filled h.filledModule
  | samplingWindow w =>
    exact h.frame rfl rfl ⟨rfl, rfl, rfl, rfl, rfl, rfl, rfl, rfl⟩ h.filled h.filledModule
  | graphExecutions g => exact h.graphExecutions g n
  | receivePressure =>
    exact h.frame rfl rfl ⟨rfl, rfl, rfl, rfl, rfl, rfl, rfl, rfl⟩ h.filled h.filledModule

theorem received_of_reaches {s : System} (h : System.Reaches cfg as s) (hcalls : ∀ a ∈ as, ∃ c, a = .call c) :
    Received cfg as s := by
  refine h.invariant (I := fun as s => (∀ a ∈ as, ∃ c, a = Action.call c) → Received cfg as s)
    (fun _ => received_new cfg) (fun as s a s' hr ih hs hall => ?_) hcalls
  obtain ⟨c, rfl⟩ := hall a (mem_append_right _ mem_cons_self)
  have hbefore := ih fun b hb => hall b (mem_append_left _ hb)
  cases hs with
  | call c => exact hbefore.call (conserved_of_reaches hr) c _

/-- What it holds, if it evicted nothing: all executions and all samples. -/
structure Whole (as : List Action) (t : Timeline) : Prop where
  execs : t.execs.items = as.filterMap Action.exec?
  pending : t.pending.Sound exactKey
  pendingModule : t.pendingModule.Sound moduleKey
  samples : t.pending.held.map Emission.sample + t.pendingModule.held.map Emission.sample =
    (as.filterMap Action.pcSample? : List GPUPCSample)

theorem Received.whole {s : System} (h : Received cfg as s) (hr : System.Reaches cfg as s)
    (hexecs : s.timeline.dropped.evictedExecutions = 0) (hpending : s.timeline.dropped.evictedPendingSamples = 0)
    (hmodule : s.timeline.dropped.evictedPendingModuleSamples = 0) : Whole as s.timeline where
  execs := by
    obtain ⟨epochs, current, hrep, -, hdropped, hem⟩ := (ringsInv_of_reaches hr).execs
    have hnil : epochs = [] := by
      rw [System.execReports, System.reports, h.taken, h.phase] at hrep
      exact map_eq_nil_iff.mp hrep
    subst hnil
    rw [hexecs, Epoch.lost_nil, Nat.zero_add] at hdropped
    rw [hem, length_eq_zero_iff.mp hdropped.symm]
    rfl
  pending := (conserved_of_reaches hr).pending
  pendingModule := (conserved_of_reaches hr).pendingModule
  samples := by
    obtain ⟨lost, lostModule, hl, hl', heq⟩ := (conserved_of_reaches hr).balance
    rw [hpending, Multiset.card_eq_zero] at hl
    rw [hmodule, Multiset.card_eq_zero] at hl'
    have hatt : s.attached = [] := by
      rw [System.attached, h.taken, h.phase]
      rfl
    rw [hl, hl', hatt, add_zero, add_zero, Multiset.coe_nil, zero_add] at heq
    rw [← Multiset.map_add, heq, Multiset.map_coe, emissions, map_map]
    exact congrArg _ (zipIdx_map_fst 0 _)

theorem Whole.filter_exact {t : Timeline} (h : Whole as t) (k : CorrelationID) :
    ((t.pending.held.map Emission.sample).filter fun p => exactKey p = some k) =
      (as.filterMap Action.pcSample? : Multiset GPUPCSample).filter fun p => exactKey p = some k := by
  have hother : ((t.pendingModule.held.map Emission.sample).filter fun p => exactKey p = some k) = 0 := by
    refine Multiset.filter_eq_nil.mpr fun p hp heq => ?_
    obtain ⟨e, he, rfl⟩ := Multiset.mem_map.mp hp
    obtain ⟨k', v, hv, hev⟩ := PendingIndex.mem_held.mp he
    have habsent := (moduleKey_eq_some.mp (h.pendingModule.keyed k' v hv e hev)).1
    exact Bool.false_ne_true (habsent.symm.trans (exactKey_eq_some.mp heq).1)
  rw [← h.samples, Multiset.filter_add, hother, add_zero]

theorem Whole.filter_module {t : Timeline} (h : Whole as t) (k : PendingModuleKey) :
    ((t.pendingModule.held.map Emission.sample).filter fun p => moduleKey p = some k) =
      (as.filterMap Action.pcSample? : Multiset GPUPCSample).filter fun p => moduleKey p = some k := by
  have hother : ((t.pending.held.map Emission.sample).filter fun p => moduleKey p = some k) = 0 := by
    refine Multiset.filter_eq_nil.mpr fun p hp heq => ?_
    obtain ⟨e, he, rfl⟩ := Multiset.mem_map.mp hp
    obtain ⟨k', v, hv, hev⟩ := PendingIndex.mem_held.mp he
    have hpresent := (exactKey_eq_some.mp (h.pending.keyed k' v hv e hev)).1
    exact Bool.false_ne_true ((moduleKey_eq_some.mp heq).1.symm.trans hpresent)
  rw [← h.samples, Multiset.filter_add, hother, zero_add]

/-! ## Two orders -/

theorem devicesOf_perm {execs' : List GPUKernelExec} (h : execs.Perm execs') (pid : Nat) :
    (devicesOf pid execs).Perm (devicesOf pid execs') := (h.map _).filterMap _

theorem multiDeviceProcesses_eq {execs' : List GPUKernelExec} {t t' : Timeline} (h : SeenDevices execs t)
    (h' : SeenDevices execs' t') (hperm : execs.Perm execs') : t.multiDeviceProcesses = t'.multiDeviceProcesses := by
  rw [h.count, h'.count]
  refine sum_eq_of_find? _ fun pid => ?_
  rw [h.found, h'.found]
  exact multi_processDevices_perm (devicesOf_perm hperm pid)

theorem isMultiDeviceLocked_eq {execs' : List GPUKernelExec} {t t' : Timeline} (h : SeenDevices execs t)
    (h' : SeenDevices execs' t') (hperm : execs.Perm execs') (pid : Nat) :
    t.isMultiDeviceLocked pid = t'.isMultiDeviceLocked pid := by
  rw [Timeline.isMultiDeviceLocked, Timeline.isMultiDeviceLocked, h.found, h'.found,
    Bool.eq_iff_iff, multi_processDevices, multi_processDevices]
  simp only [(devicesOf_perm hperm pid).mem_iff]

theorem isGraphRefusedLocked_eq {reports reports' : List GPUGraphExecutions} {t t' : Timeline}
    (h : SeenGraphs reports t) (h' : SeenGraphs reports' t') (hperm : reports.Perm reports')
    (htier : t.pcSampling = t'.pcSampling) (pid : Nat) :
    t.isGraphRefusedLocked pid = t'.isGraphRefusedLocked pid := by
  have hfound : (t.graphExecsByPID.find? pid).getD 0 = (t'.graphExecsByPID.find? pid).getD 0 := by
    by_cases hp : pid = 0
    · rw [hp, h.zero, h'.zero]
    · refine UInt64.toNat_inj.mp ?_
      rw [h.sums pid hp, h'.sums pid hp, reportedBy, reportedBy, (hperm.map _).sum_eq]
  rw [Timeline.isGraphRefusedLocked, Timeline.isGraphRefusedLocked, htier, h.all, h'.all, hfound, hperm.any_eq]

theorem sameGroups_of_perm {as' : List Action} {s s' : System} (hperm : as.Perm as') (h : Received cfg as s)
    (h' : Received cfg as' s') (hwhole : Whole as s.timeline) (hwhole' : Whole as' s'.timeline) {tracked : Bool}
    (htracked : tracked = true → (s.timeline.deviceTrackingCapped = 0 ∧ s.timeline.graphExecTrackingCapped = 0) ∧
        s'.timeline.deviceTrackingCapped = 0 ∧ s'.timeline.graphExecTrackingCapped = 0) :
    SameGroups tracked s.timeline s'.timeline where
  pending k := by
    have hsamples : (as.filterMap Action.pcSample? : Multiset GPUPCSample) =
        as'.filterMap Action.pcSample? := Multiset.coe_eq_coe.mpr (hperm.filterMap _)
    rw [hwhole.pending.content_eq h.filled, hwhole'.pending.content_eq h'.filled,
      hwhole.filter_exact, hwhole'.filter_exact, hsamples]
  pendingModule k := by
    have hsamples : (as.filterMap Action.pcSample? : Multiset GPUPCSample) =
        as'.filterMap Action.pcSample? := Multiset.coe_eq_coe.mpr (hperm.filterMap _)
    rw [hwhole.pendingModule.content_eq h.filledModule,
      hwhole'.pendingModule.content_eq h'.filledModule, hwhole.filter_module,
      hwhole'.filter_module, hsamples]
  multi hall :=
    isMultiDeviceLocked_eq (h.devices (htracked hall).1.1) (h'.devices (htracked hall).2.1) (hperm.filterMap _)
  processes hall :=
    multiDeviceProcesses_eq (h.devices (htracked hall).1.1) (h'.devices (htracked hall).2.1) (hperm.filterMap _)
  capped hall := (htracked hall).1.1.trans (htracked hall).2.1.symm
  refused hall :=
    isGraphRefusedLocked_eq (h.graphs (htracked hall).1.2) (h'.graphs (htracked hall).2.2)
      (hperm.filterMap _) (h.tier.trans h'.tier.symm)

/-! ## What the snapshot says -/

/-- What a snapshot says of the PC join, and of what was lost before it. -/
structure PCJoined where
  views : List ExecutionView
  pcJoin : PCJoinStats
  dropped : TimelineDropStats
  graphExecTrackingCapped : Nat

def ExecutionView.pcPart (v : ExecutionView) : ExecutionView where
  exec := v.exec
  pcSamples := v.pcSamples
  pcAttrib := v.pcAttrib

/-- The PC join is settled in the second critical section, but for the attributions that the
rounds after it refuse. -/
def pcJoined : SnapshotRecord PCJoined where
  ofJoining d c j :=
    { views := j.views.map ExecutionView.pcPart ++ j.rest.map fun r => r.view.pcPart
      pcJoin := { j.pcJoin with
        graphRefusedAttributions := j.pcJoin.graphRefusedAttributions + (j.rest.map fun r => r.refused.toNat).sum }
      dropped := d.dropped
      graphExecTrackingCapped := c.graphExecTrackingCapped }
  ofSnapshot s :=
    { views := s.executions.map ExecutionView.pcPart
      pcJoin := s.pcJoin
      dropped := s.dropped
      graphExecTrackingCapped := s.graphExecTrackingCapped }
  read _ _ _ _ := rfl
  join d c j j' cache cache' windowNs hj := by
    obtain ⟨r, v, hr⟩ := Joining.joinExec_spec hj
    have hv : v.pcPart = r.view.pcPart := by rw [hr.view]; rfl
    simp [hr.rest, hr.views, hr.pcJoin, hv, Nat.add_assoc]
  finish d c j cache hr := by simp [finishSnapshot, hr]

/-- Nothing that the PC join works on was evicted before the snapshot. -/
structure Snapshot.Whole (snap : Snapshot) : Prop where
  executions : snap.dropped.evictedExecutions = 0
  samples : snap.dropped.evictedPendingSamples = 0
  moduleSamples : snap.dropped.evictedPendingModuleSamples = 0

/-- Every process found room in the tracker of the devices and in that of the graphs. -/
structure Snapshot.Tracked (snap : Snapshot) : Prop where
  devices : snap.pcJoin.deviceTrackingCapped = 0
  graphs : snap.graphExecTrackingCapped = 0

/-- The first snapshot of a run that only received before: what it joined is what its second
critical section made of the timeline. -/
structure JoinedFrom (functionName : PendingModuleKey → Option String) (s : System)
    (snap : Snapshot) : Prop where
  views : snap.executions.map ExecutionView.pcPart = (s.timeline.collectLocked functionName
    s.timeline.execs.items).2.rows.map fun r => r.view.pcPart
  pcJoin : snap.pcJoin =
    { (s.timeline.collectLocked functionName s.timeline.execs.items).2.pcJoin with
      graphRefusedAttributions :=
        (s.timeline.collectLocked functionName s.timeline.execs.items).2.pcJoin.graphRefusedAttributions +
        ((s.timeline.collectLocked functionName s.timeline.execs.items).2.rows.map fun r => r.refused.toNat).sum }
  dropped : snap.dropped = s.timeline.dropped
  graphs : snap.graphExecTrackingCapped = s.timeline.graphExecTrackingCapped

theorem joinedFrom_of_reaches {calls : List Call} {functionName : PendingModuleKey → Option String} {s : System}
    (h : System.Reaches cfg
      (calls.map .call ++ .snapshotBegin :: .snapshotCollect functionName :: as) s) {snap : Snapshot}
    (hsnap : s.taken[0]? = some snap) :
    ∃ s₀, System.Reaches cfg (calls.map .call) s₀ ∧ JoinedFrom functionName s₀ snap := by
  have hcut : calls.map Action.call ++ Action.snapshotBegin :: .snapshotCollect functionName :: as =
      (calls.map Action.call ++ [Action.snapshotBegin]) ++ .snapshotCollect functionName :: as := by
    rw [append_assoc]
    rfl
  have hcount : (calls.map Action.call ++ [Action.snapshotBegin]).countP Action.isCollect = 0 := by
    refine countP_eq_zero.mpr fun a ha => ?_
    rcases mem_append.mp ha with ha | ha
    · obtain ⟨c, -, rfl⟩ := mem_map.mp ha
      exact Bool.false_ne_true
    · rw [mem_singleton.mp ha]
      exact Bool.false_ne_true
  rw [hcut] at h
  rw [← hcount] at hsnap
  have hguarded : Run (fun s a s' => True ∧ System.step s a = some s') (System.new cfg) _ s :=
    h.mono fun _ _ _ hs => ⟨trivial, hs⟩
  obtain ⟨s₁, s₂, d, hr, -, hd, -, -, hrec⟩ := pcJoined.published hguarded hsnap
  obtain ⟨s₀, hr₀, -, ha⟩ := Run.last hr
  cases System.step_spec ha with
  | begin hp =>
    cases hd
    exact ⟨s₀, hr₀.mono fun _ _ _ hs => hs.2, congrArg PCJoined.views hrec,
      congrArg PCJoined.pcJoin hrec, congrArg PCJoined.dropped hrec,
      congrArg PCJoined.graphExecTrackingCapped hrec⟩

/-- The PC join does not depend on the order in which the records arrived.  Two runs receive the
same calls in two orders, of executions that differ in start and in correlation, and then take a
snapshot; if nothing was evicted, the two snapshots attach the same samples to the same
executions and agree on the counters of the tiers and of the groups.  If the two trackers had
room for every process they agree on how each execution was attributed and on every counter.
The groups of a store are examined in one order, in whatever order its keys are found. -/
theorem pcJoin_arrival_order {cfg : TimelineConfig} {calls calls' : List Call} (hperm : calls.Perm calls')
    (hstart : (((calls.map Action.call).filterMap Action.exec?).map GPUKernelExec.startNs).Nodup)
    (hcorr : (((calls.map Action.call).filterMap Action.exec?).map GPUKernelExec.correlation).Nodup)
    {functionName : PendingModuleKey → Option String} {as as' : List Action} {s s' : System}
    (h : System.Reaches cfg (calls.map .call ++ .snapshotBegin :: .snapshotCollect functionName :: as) s)
    (h' : System.Reaches cfg (calls'.map .call ++ .snapshotBegin :: .snapshotCollect functionName :: as') s')
    {snap snap' : Snapshot} (hsnap : s.taken[0]? = some snap) (hsnap' : s'.taken[0]? = some snap')
    (hwhole : snap.Whole) (hwhole' : snap'.Whole) :
    ((snap.executions.map (ExecutionView.content false)).Perm (snap'.executions.map (ExecutionView.content false)) ∧
      snap.pcJoin.compared false = snap'.pcJoin.compared false) ∧
    (snap.Tracked → snap'.Tracked → (snap.executions.map (ExecutionView.content true)).Perm
        (snap'.executions.map (ExecutionView.content true)) ∧
      snap.pcJoin = snap'.pcJoin) ∧
    ∀ (idx : PendingIndex PendingModuleKey) (found : List PendingModuleKey), found.Perm idx.store.byKey.keys →
      (found.insertionSort fun a b => comparePendingModuleKey a b ≠ .gt) = idx.sortedKeys := by
  obtain ⟨s₀, hr, hfrom⟩ := joinedFrom_of_reaches h hsnap
  obtain ⟨s₀', hr', hfrom'⟩ := joinedFrom_of_reaches h' hsnap'
  have hcalls : ∀ (calls : List Call), ∀ a ∈ calls.map Action.call, ∃ c, a = .call c :=
    fun calls a ha => by
      obtain ⟨c, -, rfl⟩ := mem_map.mp ha
      exact ⟨c, rfl⟩
  have hrec := received_of_reaches hr (hcalls calls)
  have hrec' := received_of_reaches hr' (hcalls calls')
  have hw := hrec.whole hr (hfrom.dropped ▸ hwhole.executions) (hfrom.dropped ▸ hwhole.samples)
    (hfrom.dropped ▸ hwhole.moduleSamples)
  have hw' := hrec'.whole hr' (hfrom'.dropped ▸ hwhole'.executions)
    (hfrom'.dropped ▸ hwhole'.samples) (hfrom'.dropped ▸ hwhole'.moduleSamples)
  -- what is true of both, whether or not the tags are compared
  have hboth : ∀ tracked : Bool, (tracked = true → snap.Tracked ∧ snap'.Tracked) →
      (snap.executions.map (ExecutionView.content tracked)).Perm
        (snap'.executions.map (ExecutionView.content tracked)) ∧
      snap.pcJoin.compared tracked = snap'.pcJoin.compared tracked := by
    intro tracked htracked
    have hsame : SameGroups tracked s₀.timeline s₀'.timeline := by
      refine sameGroups_of_perm (hperm.map _) hrec hrec' hw hw' fun hall => ?_
      obtain ⟨ht, ht'⟩ := htracked hall
      have hd := ht.devices
      have hd' := ht'.devices
      rw [hfrom.pcJoin] at hd
      rw [hfrom'.pcJoin] at hd'
      exact ⟨⟨(deviceTrackingCapped_collectLocked ..).symm.trans hd, hfrom.graphs ▸ ht.graphs⟩,
        (deviceTrackingCapped_collectLocked ..).symm.trans hd', hfrom'.graphs ▸ ht'.graphs⟩
    have hexecs : s₀.timeline.execs.items.Perm s₀'.timeline.execs.items := by
      rw [hw.execs, hw'.execs]
      exact (hperm.map _).filterMap _
    rw [← hw.execs] at hstart hcorr
    obtain ⟨hviews, hstats, hrefused⟩ :=
      collectLocked_alike hsame functionName hexecs hstart hcorr
    constructor
    · have hv := congrArg (List.map (ExecutionView.content tracked)) hfrom.views
      have hv' := congrArg (List.map (ExecutionView.content tracked)) hfrom'.views
      rw [map_map, map_map] at hv hv'
      exact (List.Perm.of_eq hv).trans (hviews.trans (.of_eq hv'.symm))
    · rw [hfrom.pcJoin, hfrom'.pcJoin]
      cases tracked with
      | false => exact hstats
      | true =>
        have hall : (s₀.timeline.collectLocked functionName s₀.timeline.execs.items).2.pcJoin =
            (s₀'.timeline.collectLocked functionName s₀'.timeline.execs.items).2.pcJoin := hstats
        rw [hrefused rfl, hall]
  exact ⟨hboth false nofun, fun ht ht' => hboth true fun _ => ⟨ht, ht'⟩, fun _ _ hfound => insertionSort_keys_eq hfound⟩

/-- Two executions of a kernel, and two samples of the kernel that name no execution. -/
def twoOfKernel : List Call :=
  [.exec { correlation := { backend := "cuda", pid := 7, value := "a" }, kernelName := "k", startNs := 5 },
   .pcSample { correlation := { pid := 7 }, timeNs := 1 },
   .exec { correlation := { backend := "cuda", pid := 7, value := "b" }, kernelName := "k", startNs := 2 },
   .pcSample { correlation := { pid := 7 }, timeNs := 2 }]

def capacityFour : TimelineConfig := { launchCache := { capacity := 4 } }

def joinTwoOfKernel : List Action := [.snapshotJoin, .snapshotJoin, .snapshotFinish]

def joinsTwo (views : List (Nat × Nat)) (snap : Snapshot) : Bool :=
  snap.executions.map (fun v => (v.exec.startNs, v.pcSamples.length)) == views &&
    snap.dropped == {} && snap.pcJoin.deviceTrackingCapped == 0 &&
    snap.graphExecTrackingCapped == 0

/-- The samples go to the execution that started first, in either order. -/
theorem pcJoin_arrival_order_two_of_kernel : ∃ s s' snap snap', System.Reaches capacityFour (twoOfKernel.map .call ++
        .snapshotBegin :: .snapshotCollect (fun _ => some "k") :: joinTwoOfKernel) s ∧
      System.Reaches capacityFour (twoOfKernel.reverse.map .call ++
        .snapshotBegin :: .snapshotCollect (fun _ => some "k") :: joinTwoOfKernel) s' ∧
      s.taken[0]? = some snap ∧ s'.taken[0]? = some snap' ∧
      snap.executions.map (fun v => (v.exec.startNs, v.pcSamples.length)) = [(5, 0), (2, 2)] ∧
      snap'.executions.map (fun v => (v.exec.startNs, v.pcSamples.length)) = [(2, 2), (5, 0)] ∧
      (snap.executions.map (ExecutionView.content true)).Perm (snap'.executions.map (ExecutionView.content true)) ∧
      snap.pcJoin = snap'.pcJoin := by
  obtain ⟨s, hr, h⟩ := @exists_run _ _ System.step (System.new capacityFour) (twoOfKernel.map .call ++
      .snapshotBegin :: .snapshotCollect (fun _ => some "k") :: joinTwoOfKernel)
    (fun s => s.taken[0]?.any (joinsTwo [(5, 0), (2, 2)])) (by decide +kernel)
  obtain ⟨s', hr', h'⟩ := @exists_run _ _ System.step (System.new capacityFour) (twoOfKernel.reverse.map .call ++
      .snapshotBegin :: .snapshotCollect (fun _ => some "k") :: joinTwoOfKernel)
    (fun s => s.taken[0]?.any (joinsTwo [(2, 2), (5, 0)])) (by decide +kernel)
  obtain ⟨snap, hs, hp⟩ := (Option.any_eq_true _ _).mp h
  obtain ⟨snap', hs', hp'⟩ := (Option.any_eq_true _ _).mp h'
  simp only [joinsTwo, Bool.and_eq_true, beq_iff_eq] at hp hp'
  have hall := pcJoin_arrival_order (reverse_perm twoOfKernel).symm (by decide) (by decide)
    hr hr' hs hs' ⟨by rw [hp.1.1.2], by rw [hp.1.1.2], by rw [hp.1.1.2]⟩
    ⟨by rw [hp'.1.1.2], by rw [hp'.1.1.2], by rw [hp'.1.1.2]⟩
  exact ⟨s, s', snap, snap', hr, hr', hs, hs', hp.1.1.1, hp'.1.1.1, hall.2.1 ⟨hp.1.2, hp.2⟩ ⟨hp'.1.2, hp'.2⟩⟩

end PerfAgent.Gpu
