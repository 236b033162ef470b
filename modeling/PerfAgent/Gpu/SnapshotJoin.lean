import Mathlib.Tactic.Abel
import PerfAgent.Gpu.Snapshot

/-!
# What the second critical section does to the samples

The specification of `collectLocked`, as one record of facts (`Collects`): which samples
the executions end up with, that every one of them is of the execution's process, and that
the counters of the PC join agree with what was joined.  The exact tier is a recursion over
the executions and the module tier a fold over the pending groups; `ModuleJoin.step` is the
step of the latter.
-/

namespace PerfAgent.Gpu

open List

def samplesOf (rows : List ExecRow) : List Emission := rows.flatMap ExecRow.samples

@[simp] theorem samplesOf_nil : samplesOf [] = [] := rfl

@[simp] theorem samplesOf_cons (r : ExecRow) (rows : List ExecRow) :
    samplesOf (r :: rows) = r.samples ++ samplesOf rows := rfl

@[simp] theorem samplesOf_append (rows rows' : List ExecRow) :
    samplesOf (rows ++ rows') = samplesOf rows ++ samplesOf rows' := flatMap_append

/-- What holds of a row after the tiers have served it.  The module tier never claims an
exact attribution, and never touches what the exact tier served. -/
structure ExecRow.Served (r : ExecRow) : Prop where
  exact : r.exactServed = true → ∀ e ∈ r.samples,
    e.sample.correlation.present = true ∧ e.sample.correlation = r.exec.correlation
  module : r.exactServed = false → ∀ e ∈ r.samples, e.sample.correlation.present = false
  pid : ∀ e ∈ r.samples, e.sample.correlation.pid = r.exec.correlation.pid
  inferred : r.attrib = .empty ∨ r.attrib = .kernel ∨ r.attrib = .kernelAmbiguous ∨ r.attrib = .kernelMultiDevice

/-- Where a sample waits in the store for those that carry a correlation. -/
def exactKey (p : GPUPCSample) : Option CorrelationID :=
  if p.correlation.present then some p.correlation else none

def moduleKey (p : GPUPCSample) : Option PendingModuleKey :=
  if p.correlation.present then none else some (pendingModuleKeyFor p)

theorem exactKey_eq_some {p : GPUPCSample} {k : CorrelationID} :
    exactKey p = some k ↔ p.correlation.present = true ∧ p.correlation = k := by
  unfold exactKey
  split <;> simp_all

theorem moduleKey_eq_some {p : GPUPCSample} {k : PendingModuleKey} :
    moduleKey p = some k ↔ p.correlation.present = false ∧ pendingModuleKeyFor p = k := by
  unfold moduleKey
  split <;> simp_all

/-! ## The exact tier -/

theorem joinPending_spec : ∀ (execs : List GPUKernelExec) {idx : PendingIndex CorrelationID}, idx.Sound exactKey →
    (joinPending idx execs).1.Sound exactKey ∧
    idx.held = samplesOf (joinPending idx execs).2.1 + (joinPending idx execs).1.held ∧
    (joinPending idx execs).2.2 = (samplesOf (joinPending idx execs).2.1).length ∧
    (joinPending idx execs).2.1.map ExecRow.exec = execs ∧
    ∀ r ∈ (joinPending idx execs).2.1, r.Served := by
  intro execs
  induction execs with
  | nil => exact fun {idx} h => ⟨h, by simp [joinPending], rfl, rfl, by simp [joinPending]⟩
  | cons exec execs ih =>
    intro idx h
    unfold joinPending
    cases hf : idx.store.byKey.find? exec.correlation with
    | none =>
      obtain ⟨hs, hheld, hn, hexec, hserved⟩ := ih h
      refine ⟨hs, by simpa using hheld, by simpa using hn, by simpa using hexec, ?_⟩
      intro r hr
      rcases mem_cons.mp hr with rfl | hr
      · exact ⟨fun _ => by simp, fun _ => by simp, by simp, .inl rfl⟩
      · exact hserved r hr
    | some entry =>
      obtain ⟨hs', hheld'⟩ := h.consume hf
      obtain ⟨hs, hheld, hn, hexec, hserved⟩ := ih hs'
      refine ⟨hs, ?_, by simp [hn], by simpa using hexec, ?_⟩
      · rw [hheld', hheld, ← add_assoc, samplesOf_cons, Multiset.coe_add]
      · intro r hr
        rcases mem_cons.mp hr with rfl | hr
        · have hkey : ∀ e ∈ entry.samples, e.sample.correlation.present = true ∧
              e.sample.correlation = exec.correlation := fun e he =>
            exactKey_eq_some.mp (h.keyed _ entry hf e he)
          exact ⟨fun _ => hkey, (fun heq => by cases heq), fun e he => congrArg CorrelationID.pid (hkey e he).2,
            .inl rfl⟩
        · exact hserved r hr

/-! ## The module tier -/

theorem pickTarget_eq_some : ∀ {cs : List (ExecRow × Nat)} {target : Option (ExecRow × Nat)}
    {c : ExecRow × Nat}, pickTarget cs target = some c →
    target = some c ∨ c ∈ cs ∧ c.1.exactServed = false := by
  intro cs
  induction cs with
  | nil => exact fun {target c} h => .inl h
  | cons b cs ih =>
    intro target c h
    have lift : (pickTarget cs target = some c ∨ pickTarget cs (some b) = some c ∧ b.1.exactServed = false) →
        target = some c ∨ c ∈ b :: cs ∧ c.1.exactServed = false := by
      rintro (h | ⟨h, hb⟩)
      · exact (ih h).imp_right fun h => ⟨mem_cons_of_mem _ h.1, h.2⟩
      · rcases ih h with heq | h
        · cases heq
          exact .inr ⟨mem_cons_self, hb⟩
        · exact .inr ⟨mem_cons_of_mem _ h.1, h.2⟩
    refine lift ?_
    unfold pickTarget at h
    split at h
    · exact .inl h
    · next hb =>
        have hb' : b.1.exactServed = false := by simpa using hb
        split at h
        · exact .inr ⟨h, hb'⟩
        · split at h
          · exact .inr ⟨h, hb'⟩
          · exact .inl h

theorem pickTarget_byKernel {rows : List ExecRow} {pid : Nat} {name : String}
    {c : ExecRow × Nat} (h : pickTarget (byKernel rows pid name) none = some c) :
    rows[c.2]? = some c.1 ∧ c.1.exec.correlation.pid = pid ∧ c.1.exactServed = false := by
  rcases pickTarget_eq_some h with heq | ⟨hmem, hserved⟩
  · cases heq
  · rw [byKernel, mem_filter] at hmem
    obtain ⟨hz, hc⟩ := hmem
    simp only [ne_eq, decide_eq_true_eq] at hc
    exact ⟨mem_zipIdx_iff_getElem?.mp hz, hc.2.2.1, hserved⟩

theorem PendingIndex.Sound.consume_getD {K : Type} [DecidableEq K] {keyOf : GPUPCSample → Option K}
    {idx : PendingIndex K} (h : idx.Sound keyOf) (k : K) :
    (idx.consume k ((idx.store.byKey.find? k).getD {})).Sound keyOf ∧
      idx.held = ((idx.store.byKey.find? k).getD {}).samples +
        (idx.consume k ((idx.store.byKey.find? k).getD {})).held ∧
      ∀ e ∈ ((idx.store.byKey.find? k).getD {}).samples, keyOf e.sample = some k := by
  cases hf : idx.store.byKey.find? k with
  | some entry => exact ⟨(h.consume hf).1, (h.consume hf).2, h.keyed k entry hf⟩
  | none =>
    have hsame : idx.consume k ((none : Option PendingSamples).getD {}) = idx := by
      simp [PendingIndex.consume, AssocMap.del_of_find?_eq_none hf]
    rw [hsame]
    exact ⟨h, by simp, by simp⟩

theorem inferred_worse {a b : PCAttrib} (ha : a = .empty ∨ a = .kernel ∨ a = .kernelAmbiguous ∨ a = .kernelMultiDevice)
    (hb : b = .kernel ∨ b = .kernelAmbiguous ∨ b = .kernelMultiDevice) :
    worsePCAttrib a b = .empty ∨ worsePCAttrib a b = .kernel ∨
      worsePCAttrib a b = .kernelAmbiguous ∨ worsePCAttrib a b = .kernelMultiDevice := by
  rcases ha with rfl | rfl | rfl | rfl <;> rcases hb with rfl | rfl | rfl <;> decide

/-- The loop over the pending groups, after `done` of them: `idx` and `rows` are where it
started from. -/
structure ModuleJoin (idx : PendingIndex PendingModuleKey) (rows : List ExecRow) (done : Nat)
    (j : PCModuleJoin) : Prop where
  sound : j.idx.Sound moduleKey
  held : (samplesOf rows : Multiset Emission) + idx.held = samplesOf j.rows + j.idx.held
  samples : (samplesOf j.rows).length = (samplesOf rows).length + j.samples
  execs : j.rows.map ExecRow.exec = rows.map ExecRow.exec
  served : ∀ r ∈ j.rows, r.Served
  groups : j.stats.groupsExamined = done
  refused : j.stats.graphRefusedAttributions = 0

theorem ModuleJoin.step {idx : PendingIndex PendingModuleKey} {rows : List ExecRow} {done : Nat}
    {j : PCModuleJoin} (h : ModuleJoin idx rows done j) (multi : Nat → Bool)
    (functionName : PendingModuleKey → Option String) (key : PendingModuleKey) :
    ModuleJoin idx rows (done + 1) (j.joinGroup multi functionName key) := by
  -- a group that is left pending changes nothing but the counter of its reason
  have left : ∀ stats : PCJoinStats, stats.groupsExamined = j.stats.groupsExamined + 1 →
      stats.graphRefusedAttributions = 0 →
      ModuleJoin idx rows (done + 1) { j with stats := stats } := fun stats hg hr =>
    { h with groups := by rw [hg, h.groups], refused := hr }
  unfold PCModuleJoin.joinGroup
  split
  · exact left _ (by simp only [PCJoinStats.groupsExamined]; omega) h.refused
  split
  · exact left _ (by simp only [PCJoinStats.groupsExamined]; omega) h.refused
  next name _ =>
  dsimp only
  split
  · exact left _ (by simp only [PCJoinStats.groupsExamined]; omega) h.refused
  next row target htarget =>
  obtain ⟨hrow, hpid, hfree⟩ := pickTarget_byKernel htarget
  obtain ⟨hsound, hheld, hkeyed⟩ := h.sound.consume_getD key
  obtain ⟨l₁, l₂, hl, hmod⟩ := modify_split hrow
  have hinferred := h.served row (hl ▸ by simp)
  rw [hmod]
  refine ⟨hsound, ?_, ?_, ?_, ?_, ?_, h.refused⟩
  · rw [h.held, hl, hheld]
    simp only [samplesOf_append, samplesOf_cons, ← Multiset.coe_add]
    abel
  · have hlen := h.samples
    rw [hl] at hlen
    simp only [samplesOf_append, samplesOf_cons, List.length_append] at hlen ⊢
    omega
  · rw [← h.execs, hl]
    simp
  · intro r hr
    rcases mem_append.mp hr with hr | hr
    · exact h.served r (hl ▸ mem_append_left _ hr)
    · rcases mem_cons.mp hr with rfl | hr
      · refine ⟨fun he => ?_, fun _ e he => ?_, fun e he => ?_, ?_⟩
        · rw [show _ = false from hfree] at he
          cases he
        · rcases mem_append.mp he with he | he
          · exact hinferred.module hfree e he
          · exact (moduleKey_eq_some.mp (hkeyed e he)).1
        · rcases mem_append.mp he with he | he
          · exact hinferred.pid e he
          · have hk := (moduleKey_eq_some.mp (hkeyed e he)).2
            exact (congrArg PendingModuleKey.pid hk).trans hpid.symm
        · refine inferred_worse hinferred.inferred ?_
          split
          · exact .inr (.inr rfl)
          · split
            · exact .inr (.inl rfl)
            · exact .inl rfl
      · exact h.served r (hl ▸ mem_append_right _ (mem_cons_of_mem _ hr))
  · have := h.groups
    simp only [PCJoinStats.groupsExamined] at this ⊢
    omega

theorem ModuleJoin.foldl {idx : PendingIndex PendingModuleKey} {rows : List ExecRow}
    (multi : Nat → Bool) (functionName : PendingModuleKey → Option String) :
    ∀ (keys : List PendingModuleKey) {done : Nat} {j : PCModuleJoin}, ModuleJoin idx rows done j →
      ModuleJoin idx rows (done + keys.length) (keys.foldl (·.joinGroup multi functionName) j) := by
  intro keys
  induction keys with
  | nil => exact fun {done j} h => h
  | cons key keys ih =>
    intro done j h
    rw [foldl_cons, length_cons, ← Nat.add_assoc, Nat.add_right_comm]
    exact ih (h.step multi functionName key)

theorem length_sortedKeys (idx : PendingIndex PendingModuleKey) : idx.sortedKeys.length = idx.store.byKey.size := by
  rw [PendingIndex.sortedKeys, length_insertionSort]
  exact length_map _

theorem joinPendingModuleLocked_spec {t : Timeline} (h : t.pendingModule.Sound moduleKey)
    (functionName : PendingModuleKey → Option String) {rows : List ExecRow}
    (hrows : ∀ r ∈ rows, r.Served) :
    ModuleJoin t.pendingModule rows t.pendingModule.store.byKey.size (t.joinPendingModuleLocked functionName rows) ∧
      (t.joinPendingModuleLocked functionName rows).stats.attributedKernel =
        (t.joinPendingModuleLocked functionName rows).samples := by
  have h₀ : ModuleJoin t.pendingModule rows 0 { idx := t.pendingModule, rows := rows, stats := {
      multiDeviceProcesses := t.multiDeviceProcesses
      deviceTrackingCapped := t.deviceTrackingCapped } } :=
    ⟨h, rfl, rfl, rfl, hrows, rfl, rfl⟩
  unfold Timeline.joinPendingModuleLocked
  dsimp only
  split
  · next hz => exact ⟨hz ▸ h₀, rfl⟩
  · have hj := h₀.foldl t.isMultiDeviceLocked functionName t.pendingModule.sortedKeys
    rw [Nat.zero_add, length_sortedKeys] at hj
    exact ⟨⟨hj.sound, hj.held, hj.samples, hj.execs, hj.served, hj.groups, hj.refused⟩, rfl⟩

/-! ## Both tiers -/

/-- What the second critical section does, for the executions `execs`. -/
structure Collects (t : Timeline) (execs : List GPUKernelExec) (t' : Timeline) (c : Collected) :
    Prop where
  frame : t' = { t with pending := t'.pending, pendingModule := t'.pendingModule }
  pending : t'.pending.Sound exactKey
  pendingModule : t'.pendingModule.Sound moduleKey
  held : t.pending.held + t.pendingModule.held = samplesOf c.rows + (t'.pending.held + t'.pendingModule.held)
  execs : c.rows.map ExecRow.exec = execs
  served : ∀ r ∈ c.rows, r.Served
  attributed : c.pcJoin.attributedTotal = (samplesOf c.rows).length
  reported : c.attributedPCSamples = (samplesOf c.rows).length
  groups : c.pcJoin.groupsExamined = t.pendingModule.store.byKey.size
  refused : c.pcJoin.graphRefusedAttributions = 0

theorem samplesOf_disclose (t : Timeline) (rows : List ExecRow) : samplesOf (rows.map t.disclose) = samplesOf rows := by
  rw [samplesOf, flatMap_map]
  rfl

theorem collectLocked_spec {t : Timeline} (h : t.pending.Sound exactKey) (hm : t.pendingModule.Sound moduleKey)
    (functionName : PendingModuleKey → Option String) (execs : List GPUKernelExec) :
    Collects t execs (t.collectLocked functionName execs).1 (t.collectLocked functionName execs).2 := by
  obtain ⟨hs, hheld, hn, hexec, hserved⟩ := joinPending_spec execs h
  obtain ⟨hj, hk⟩ := joinPendingModuleLocked_spec
    (t := { t with pending := (joinPending t.pending execs).1 }) hm functionName hserved
  have hlen := hj.samples
  refine ⟨rfl, hs, hj.sound, ?_, ?_, ?_, ?_, ?_, hj.groups, hj.refused⟩
  · change _ = ((samplesOf (List.map (Timeline.disclose _) _) : List Emission) :
      Multiset Emission) + _
    rw [samplesOf_disclose, hheld, add_right_comm, hj.held]
    simp only [Timeline.collectLocked]
    abel
  · change (List.map (Timeline.disclose _) _).map ExecRow.exec = execs
    rw [map_map]
    exact hj.execs.trans hexec
  · intro r hr
    obtain ⟨r', hr', rfl⟩ := mem_map.mp hr
    have hr'' := hj.served r' hr'
    exact ⟨hr''.exact, hr''.module, hr''.pid, hr''.inferred⟩
  · change (joinPending t.pending execs).2.2 + PCJoinStats.attributedKernel _ =
      (samplesOf (List.map (Timeline.disclose _) _)).length
    rw [samplesOf_disclose]
    exact (congrArg₂ (· + ·) hn hk).trans hlen.symm
  · change (joinPending t.pending execs).2.2 + PCModuleJoin.samples _ =
      (samplesOf (List.map (Timeline.disclose _) _)).length
    rw [samplesOf_disclose, hn, hlen]

end PerfAgent.Gpu
