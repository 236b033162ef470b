import PerfAgent.Gpu.SnapshotJoin

/-!
# The PC join does not depend on an order

Two timelines that hold the same executions and the same groups of samples, in whatever order,
are joined alike.  `RowContent` is a row without the order of its samples, and `Alike` relates
the loops over the groups of the two: they examine the groups in the same order, since the keys
are sorted first, and each group goes to the execution that started first.  Executions are told
apart by when they started, so no two rows have one start.

The tags that the module tier gives also say whether a process runs on several devices, which
the timeline remembers for a limited number of processes.  `tracked` says that it remembers
them all; without it the tags, and the counters of the tags, are not compared.
-/

namespace PerfAgent.Gpu

open List

/-! ## The order of the keys -/

instance : Std.TransCmp comparePendingModuleKey :=
  inferInstanceAs <| Std.TransCmp <|
    compareLex (compareOn PendingModuleKey.pid) <| compareLex (compareOn PendingModuleKey.cubinCRC) <|
      compareLex (compareOn PendingModuleKey.functionIndex) (compareOn PendingModuleKey.backend)

theorem eq_of_comparePendingModuleKey {a b : PendingModuleKey} (h : comparePendingModuleKey a b = .eq) : a = b := by
  unfold comparePendingModuleKey at h
  simp only [Ordering.then_eq_eq, compare_eq_iff_eq] at h
  cases a
  cases b
  simp_all

theorem insertionSort_keys_eq {ks ks' : List PendingModuleKey} (h : ks.Perm ks') :
    (ks.insertionSort fun a b => comparePendingModuleKey a b ≠ .gt) =
      ks'.insertionSort fun a b => comparePendingModuleKey a b ≠ .gt := by
  have htotal : Std.Total fun a b => comparePendingModuleKey a b ≠ .gt := ⟨fun a b => by
    rw [@Std.OrientedCmp.eq_swap _ comparePendingModuleKey _ b a]
    cases comparePendingModuleKey a b <;> decide⟩
  have htrans : IsTrans PendingModuleKey fun a b => comparePendingModuleKey a b ≠ .gt :=
    ⟨fun a b c hab hbc => by
      rw [ne_eq, ← Ordering.isLE_iff_ne_gt] at hab hbc ⊢
      exact Std.TransCmp.isLE_trans hab hbc⟩
  refine List.Perm.eq_of_pairwise (fun a b _ _ hab hba => ?_) (pairwise_insertionSort _ ks)
    (pairwise_insertionSort _ ks') ?_
  · refine eq_of_comparePendingModuleKey ?_
    rw [@Std.OrientedCmp.eq_swap _ comparePendingModuleKey _ b a] at hba
    revert hab hba
    cases comparePendingModuleKey a b <;> decide
  · exact (perm_insertionSort _ ks).trans (h.trans (perm_insertionSort _ ks').symm)

/-! ## What a store holds, without an order -/

namespace PendingIndex

variable {K : Type} [DecidableEq K] (idx : PendingIndex K)

def content (k : K) : Option (Multiset GPUPCSample) :=
  (idx.store.byKey.find? k).map fun v => (v.samples.map Emission.sample : List GPUPCSample)

theorem card_getD_content (k : K) :
    ((idx.content k).getD 0).card = ((idx.store.byKey.find? k).getD {}).samples.length := by
  unfold content
  cases idx.store.byKey.find? k with
  | none => rfl
  | some v => exact length_map _

theorem getD_content (k : K) : (idx.content k).getD 0 =
      ((((idx.store.byKey.find? k).getD {}).samples.map Emission.sample : List GPUPCSample) :
        Multiset GPUPCSample) := by
  unfold content
  cases idx.store.byKey.find? k with
  | none => rfl
  | some v => rfl

theorem content_consume (k k' : K) (entry : PendingSamples) :
    (idx.consume k entry).content k' = if k' = k then none else idx.content k' := by
  simp only [content, consume, AssocMap.find?_del]
  split <;> rfl

theorem keys_perm {idx idx' : PendingIndex K} (h : ∀ k, idx.content k = idx'.content k) :
    idx.store.byKey.keys.Perm idx'.store.byKey.keys := by
  have hisSome : ∀ (idx : PendingIndex K) (k : K),
      k ∈ idx.store.byKey.keys ↔ (idx.content k).isSome = true := fun idx k => by
    rw [content, Option.isSome_map]
    exact AList.lookup_isSome.symm
  refine (perm_ext_iff_of_nodup (AList.keys_nodup _) (AList.keys_nodup _)).mpr fun k => ?_
  rw [hisSome, hisSome, h]

end PendingIndex

structure RowContent where
  exec : GPUKernelExec
  samples : Multiset GPUPCSample
  exactServed : Bool
  attrib : PCAttrib

def ExecRow.content (tracked : Bool) (r : ExecRow) : RowContent where
  exec := r.exec
  samples := (r.samples.map Emission.sample : List GPUPCSample)
  exactServed := r.exactServed
  attrib := if tracked then r.attrib else .empty

/-! ## The exact tier -/

theorem joinPending_content (tracked : Bool) : ∀ (execs : List GPUKernelExec)
    (idx : PendingIndex CorrelationID), (execs.map GPUKernelExec.correlation).Nodup →
    (joinPending idx execs).2.1.map (ExecRow.content tracked) = execs.map (fun e =>
          { exec := e
            samples := (idx.content e.correlation).getD 0
            exactServed := (idx.content e.correlation).isSome
            attrib := .empty }) ∧
      (joinPending idx execs).2.2 = (execs.map fun e => ((idx.content e.correlation).getD 0).card).sum := by
  intro execs
  induction execs with
  | nil => exact fun idx _ => ⟨rfl, rfl⟩
  | cons e execs ih =>
    intro idx hnodup
    obtain ⟨hnot, hrest⟩ := nodup_cons.mp hnodup
    unfold joinPending
    cases hf : idx.store.byKey.find? e.correlation with
    | none =>
      obtain ⟨hrows, hn⟩ := ih idx hrest
      have hcontent : idx.content e.correlation = none := by rw [PendingIndex.content, hf]; rfl
      refine ⟨?_, ?_⟩
      · rw [map_cons, map_cons, hrows, hcontent]
        cases tracked <;> rfl
      · rw [map_cons, sum_cons, ← hn, hcontent]
        exact (Nat.zero_add _).symm
    | some entry =>
      obtain ⟨hrows, hn⟩ := ih (idx.consume e.correlation entry) hrest
      have hcontent : idx.content e.correlation = some ((entry.samples.map Emission.sample : List GPUPCSample) :
            Multiset GPUPCSample) := by
        rw [PendingIndex.content, hf]
        rfl
      -- the others are of other groups
      have hother : ∀ e' ∈ execs, (idx.consume e.correlation entry).content e'.correlation =
          idx.content e'.correlation := fun e' he' => by
        rw [PendingIndex.content_consume, if_neg]
        exact fun heq => hnot (heq ▸ mem_map_of_mem he')
      refine ⟨?_, ?_⟩
      · rw [map_cons, map_cons, hrows, hcontent]
        refine congrArg₂ List.cons (by cases tracked <;> rfl) (map_congr_left fun e' he' => ?_)
        rw [hother e' he']
      · change entry.samples.length + (joinPending (idx.consume e.correlation entry) execs).2.2 = _
        rw [map_cons, sum_cons, hn, hcontent, Option.getD_some, Multiset.coe_card, length_map]
        refine congrArg (entry.samples.length + List.sum ·) (map_congr_left fun e' he' => ?_)
        rw [hother e' he']

/-! ## The module tier -/

def RowContent.ofKernel (pid : Nat) (kernelName : String) (r : RowContent) : Bool :=
  decide (r.exec.kernelName ≠ "" ∧ r.exec.correlation.pid ≠ 0 ∧ r.exec.correlation.pid = pid ∧
    r.exec.kernelName = kernelName)

def RowContent.isFree (pid : Nat) (kernelName : String) (r : RowContent) : Bool :=
  r.ofKernel pid kernelName && !r.exactServed

theorem mem_byKernel {rows : List ExecRow} {pid : Nat} {kernelName : String} {r : ExecRow} {i : Nat} (tracked : Bool) :
    (r, i) ∈ byKernel rows pid kernelName ↔ rows[i]? = some r ∧ (r.content tracked).ofKernel pid kernelName = true := by
  rw [byKernel, mem_filter, mem_zipIdx_iff_getElem?]
  rfl

theorem length_byKernel (tracked : Bool) (rows : List ExecRow) (pid : Nat) (kernelName : String) :
    (byKernel rows pid kernelName).length =
      (rows.map (ExecRow.content tracked)).countP (RowContent.ofKernel pid kernelName) := by
  rw [byKernel, ← countP_eq_length_filter, countP_map]
  conv_rhs => rw [← zipIdx_map_fst 0 rows, countP_map]
  rfl

theorem pickTarget_nil (target : Option (ExecRow × Nat)) : pickTarget [] target = target := by
  rw [pickTarget]

theorem pickTarget_eq_none : ∀ {cs : List (ExecRow × Nat)} {target : Option (ExecRow × Nat)},
    pickTarget cs target = none → target = none ∧ ∀ c ∈ cs, c.1.exactServed = true := by
  intro cs
  induction cs with
  | nil =>
    intro target h
    rw [pickTarget_nil] at h
    exact ⟨h, fun _ hc => absurd hc not_mem_nil⟩
  | cons c cs ih =>
    intro target h
    unfold pickTarget at h
    split at h
    · next hc =>
        obtain ⟨htarget, hcs⟩ := ih h
        exact ⟨htarget, forall_mem_cons.mpr ⟨hc, hcs⟩⟩
    · split at h
      · cases (ih h).1
      · split at h
        · cases (ih h).1
        · cases (ih h).1

theorem startNs_pickTarget_le : ∀ {cs : List (ExecRow × Nat)} {target : Option (ExecRow × Nat)}
    {t : ExecRow × Nat}, pickTarget cs target = some t →
    (∀ b, target = some b → t.1.exec.startNs ≤ b.1.exec.startNs) ∧
      ∀ c ∈ cs, c.1.exactServed = false → t.1.exec.startNs ≤ c.1.exec.startNs := by
  intro cs
  induction cs with
  | nil =>
    intro target t h
    rw [pickTarget_nil] at h
    subst h
    refine ⟨fun b hb => ?_, fun _ hc => absurd hc not_mem_nil⟩
    cases hb
    exact Nat.le_refl _
  | cons c cs ih =>
    intro target t h
    unfold pickTarget at h
    split at h
    · next hc =>
        obtain ⟨htarget, hcs⟩ := ih h
        refine ⟨htarget, forall_mem_cons.mpr ⟨fun hfree => ?_, hcs⟩⟩
        rw [hc] at hfree
        cases hfree
    · split at h
      · obtain ⟨htarget, hcs⟩ := ih h
        refine ⟨fun b hb => ?_, forall_mem_cons.mpr ⟨fun _ => htarget c rfl, hcs⟩⟩
        cases hb
      · next best =>
          split at h
          · next hlt =>
              obtain ⟨htarget, hcs⟩ := ih h
              have hc := htarget c rfl
              refine ⟨fun b hb => ?_, forall_mem_cons.mpr ⟨fun _ => hc, hcs⟩⟩
              cases hb
              omega
          · next hge =>
              obtain ⟨htarget, hcs⟩ := ih h
              have hbest := htarget best rfl
              refine ⟨htarget, forall_mem_cons.mpr ⟨fun _ => ?_, hcs⟩⟩
              omega

section Target

variable (tracked : Bool) (rows : List ExecRow) (pid : Nat) (kernelName : String)

theorem pickTarget_byKernel_eq_none : pickTarget (byKernel rows pid kernelName) none = none ↔
      ∀ c ∈ rows.map (ExecRow.content tracked), c.isFree pid kernelName = false := by
  constructor
  · intro h c hc
    obtain ⟨r, hr, rfl⟩ := mem_map.mp hc
    obtain ⟨i, hi⟩ := mem_iff_getElem?.mp hr
    rw [RowContent.isFree, Bool.and_eq_false_iff, Bool.not_eq_false']
    cases hk : (r.content tracked).ofKernel pid kernelName with
    | false => exact .inl rfl
    | true => exact .inr ((pickTarget_eq_none h).2 (r, i) ((mem_byKernel tracked).mpr ⟨hi, hk⟩))
  · intro h
    cases hp : pickTarget (byKernel rows pid kernelName) none with
    | none => rfl
    | some t =>
      obtain ⟨hmem, hfree⟩ := (pickTarget_eq_some hp).resolve_left nofun
      obtain ⟨hi, hk⟩ := (mem_byKernel tracked).mp hmem
      have hf := h _ (mem_map_of_mem (mem_of_getElem? hi))
      rw [RowContent.isFree, hk, Bool.true_and, Bool.not_eq_false'] at hf
      exact absurd (hfree.symm.trans hf) Bool.false_ne_true

variable {tracked rows pid kernelName}

theorem pickTarget_byKernel_content {t : ExecRow × Nat} (h : pickTarget (byKernel rows pid kernelName) none = some t) :
    rows[t.2]? = some t.1 ∧ (t.1.content tracked).isFree pid kernelName = true ∧
      ∀ c ∈ rows.map (ExecRow.content tracked), c.isFree pid kernelName = true → t.1.exec.startNs ≤ c.exec.startNs := by
  obtain ⟨hmem, hfree⟩ := (pickTarget_eq_some h).resolve_left nofun
  obtain ⟨hi, hk⟩ := (mem_byKernel tracked).mp hmem
  refine ⟨hi, ?_, fun c hc hcfree => ?_⟩
  · rw [RowContent.isFree, hk, Bool.true_and]
    exact congrArg (!·) hfree
  · obtain ⟨r, hr, rfl⟩ := mem_map.mp hc
    obtain ⟨i, hri⟩ := mem_iff_getElem?.mp hr
    rw [RowContent.isFree, Bool.and_eq_true, Bool.not_eq_true'] at hcfree
    exact (startNs_pickTarget_le h).2 (r, i) ((mem_byKernel tracked).mpr ⟨hri, hcfree.1⟩) hcfree.2

end Target

/-- The counters that are compared: those of the tags only where every process is tracked. -/
def PCJoinStats.compared (tracked : Bool) (s : PCJoinStats) : PCJoinStats :=
  if tracked then s
  else
    { s with
      ambiguousAttributions := 0
      multiDeviceAttributions := 0
      graphRefusedAttributions := 0
      multiDeviceProcesses := 0
      deviceTrackingCapped := 0 }

theorem PCJoinStats.compared_tags {tracked : Bool} {s s' : PCJoinStats}
    (h : s.compared tracked = s'.compared tracked) {samples samples' ambiguous ambiguous' multi
      multi' : Nat} (hsamples : samples = samples') (hambiguous : tracked = true → ambiguous = ambiguous')
    (hmulti : tracked = true → multi = multi') :
    PCJoinStats.compared tracked { s with
      ambiguousAttributions := ambiguous
      multiDeviceAttributions := multi
      attributedKernel := samples } =
    PCJoinStats.compared tracked { s' with
      ambiguousAttributions := ambiguous'
      multiDeviceAttributions := multi'
      attributedKernel := samples' } := by
  subst hsamples
  cases tracked with
  | false => exact congrArg (fun s : PCJoinStats => { s with attributedKernel := samples }) h
  | true =>
    rw [hambiguous rfl, hmulti rfl]
    exact congrArg (fun s : PCJoinStats =>
      { s with
        ambiguousAttributions := ambiguous'
        multiDeviceAttributions := multi'
        attributedKernel := samples }) h

structure Alike (tracked : Bool) (j j' : PCModuleJoin) : Prop where
  rows : (j.rows.map (ExecRow.content tracked)).Perm (j'.rows.map (ExecRow.content tracked))
  startNs : ((j.rows.map (ExecRow.content tracked)).map fun c => c.exec.startNs).Nodup
  groups : ∀ k, j.idx.content k = j'.idx.content k
  samples : j.samples = j'.samples
  stats : j.stats.compared tracked = j'.stats.compared tracked

theorem Alike.stats_map {tracked : Bool} {j j' : PCModuleJoin} (h : Alike tracked j j')
    (f : PCJoinStats → PCJoinStats) (hf : ∀ s, (f s).compared tracked = f (s.compared tracked)) :
    (f j.stats).compared tracked = (f j'.stats).compared tracked := by
  rw [hf, hf, h.stats]

theorem Alike.target {tracked : Bool} {j j' : PCModuleJoin} (h : Alike tracked j j') {pid : Nat}
    {kernelName : String} {t t' : ExecRow × Nat}
    (ht : pickTarget (byKernel j.rows pid kernelName) none = some t)
    (ht' : pickTarget (byKernel j'.rows pid kernelName) none = some t') :
    t.1.content tracked = t'.1.content tracked := by
  obtain ⟨hi, hfree, hle⟩ := pickTarget_byKernel_content ht
  obtain ⟨hi', hfree', hle'⟩ := pickTarget_byKernel_content ht'
  have hmem : t.1.content tracked ∈ j.rows.map (ExecRow.content tracked) :=
    mem_map_of_mem (mem_of_getElem? hi)
  have hmem' : t'.1.content tracked ∈ j.rows.map (ExecRow.content tracked) :=
    h.rows.mem_iff.mpr (mem_map_of_mem (mem_of_getElem? hi'))
  have heq : t.1.exec.startNs = t'.1.exec.startNs :=
    Nat.le_antisymm (hle _ hmem' hfree') (hle' _ (h.rows.mem_iff.mp hmem) hfree)
  exact inj_on_of_nodup_map h.startNs hmem hmem' heq

theorem Alike.join {tracked : Bool} {j j' : PCModuleJoin} (h : Alike tracked j j')
    {key : PendingModuleKey} {kernelName : String} {t t' : ExecRow × Nat} {attrib attrib' : PCAttrib}
    (ht : pickTarget (byKernel j.rows key.pid kernelName) none = some t)
    (ht' : pickTarget (byKernel j'.rows key.pid kernelName) none = some t')
    (hattrib : tracked = true → attrib = attrib') :
    Alike tracked
      { idx := j.idx.consume key ((j.idx.store.byKey.find? key).getD {})
        rows := j.rows.modify t.2 fun r =>
          { r with
            samples := r.samples ++ ((j.idx.store.byKey.find? key).getD {}).samples
            attrib := worsePCAttrib r.attrib attrib }
        samples := j.samples + ((j.idx.store.byKey.find? key).getD {}).samples.length
        stats := { j.stats with groupsJoined := j.stats.groupsJoined + 1 } }
      { idx := j'.idx.consume key ((j'.idx.store.byKey.find? key).getD {})
        rows := j'.rows.modify t'.2 fun r =>
          { r with
            samples := r.samples ++ ((j'.idx.store.byKey.find? key).getD {}).samples
            attrib := worsePCAttrib r.attrib attrib' }
        samples := j'.samples + ((j'.idx.store.byKey.find? key).getD {}).samples.length
        stats := { j'.stats with groupsJoined := j'.stats.groupsJoined + 1 } } := by
  have htarget := h.target ht ht'
  obtain ⟨l₁, l₂, hl, hmod⟩ := modify_split (pickTarget_byKernel ht).1
  obtain ⟨l₁', l₂', hl', hmod'⟩ := modify_split (pickTarget_byKernel ht').1
  rw [hmod, hmod']
  have hrows := h.rows
  have hnodup := h.startNs
  rw [hl] at hrows hnodup
  rw [hl', map_append, map_cons, map_append, map_cons, htarget] at hrows
  rw [map_append, map_cons, map_append, map_cons] at hnodup
  -- the other rows are the same, and what the execution takes is
  have hothers := (perm_middle.symm.trans (hrows.trans perm_middle)).cons_inv
  refine ⟨?_, ?_, ?_, ?_, h.stats_map (fun s => { s with groupsJoined := s.groupsJoined + 1 })
    fun s => by cases tracked <;> rfl⟩
  · rw [map_append, map_cons, map_append, map_cons]
    refine perm_middle.trans (List.Perm.trans ?_ perm_middle.symm)
    refine List.Perm.trans (.of_eq (congrArg₂ List.cons ?_ rfl)) (hothers.cons _)
    simp only [ExecRow.content, RowContent.mk.injEq] at htarget ⊢
    obtain ⟨hexec, hsamples, hserved, htag⟩ := htarget
    refine ⟨hexec, ?_, hserved, ?_⟩
    · rw [map_append, map_append, ← Multiset.coe_add, ← Multiset.coe_add, hsamples,
        ← PendingIndex.getD_content, ← PendingIndex.getD_content, h.groups]
    · cases tracked with
      | false => rfl
      | true =>
        rw [if_pos rfl, if_pos rfl] at htag ⊢
        rw [htag, hattrib rfl]
  · rw [map_append, map_cons, map_append, map_cons]
    exact hnodup
  · intro k
    rw [PendingIndex.content_consume, PendingIndex.content_consume, h.groups]
  · change j.samples + _ = j'.samples + _
    rw [← PendingIndex.card_getD_content, ← PendingIndex.card_getD_content, h.groups, h.samples]

theorem Alike.step {tracked : Bool} {j j' : PCModuleJoin} (h : Alike tracked j j')
    {multi multi' : Nat → Bool} (hmulti : tracked = true → ∀ pid, multi pid = multi' pid)
    (functionName : PendingModuleKey → Option String) (key : PendingModuleKey) :
    Alike tracked (j.joinGroup multi functionName key) (j'.joinGroup multi' functionName key) := by
  have noProcess := h.stats_map (fun s => { s with groupsNoProcess := s.groupsNoProcess + 1 })
    fun s => by cases tracked <;> rfl
  have unresolved := h.stats_map (fun s => { s with groupsUnresolvedName := s.groupsUnresolvedName + 1 })
    fun s => by cases tracked <;> rfl
  have noExecution := h.stats_map (fun s => { s with groupsNoExecution := s.groupsNoExecution + 1 })
    fun s => by cases tracked <;> rfl
  unfold PCModuleJoin.joinGroup
  split
  · exact { h with stats := noProcess }
  split
  · exact { h with stats := unresolved }
  next name _ =>
  have hnone : pickTarget (byKernel j.rows key.pid name) none = none ↔
      pickTarget (byKernel j'.rows key.pid name) none = none := by
    rw [pickTarget_byKernel_eq_none tracked, pickTarget_byKernel_eq_none tracked]
    exact forall_congr' fun c => by rw [h.rows.mem_iff]
  have hlength : (byKernel j.rows key.pid name).length = (byKernel j'.rows key.pid name).length := by
    rw [length_byKernel tracked, length_byKernel tracked]
    exact h.rows.countP_eq _
  dsimp only
  cases ht : pickTarget (byKernel j.rows key.pid name) none with
  | none =>
    rw [hnone.mp ht]
    exact { h with stats := noExecution }
  | some t =>
    cases ht' : pickTarget (byKernel j'.rows key.pid name) none with
    | none =>
      rw [hnone.mpr ht'] at ht
      cases ht
    | some t' =>
      exact h.join ht ht' fun hall => by rw [hlength, hmulti hall]

theorem Alike.foldl {tracked : Bool} {multi multi' : Nat → Bool}
    (hmulti : tracked = true → ∀ pid, multi pid = multi' pid)
    (functionName : PendingModuleKey → Option String) :
    ∀ (keys : List PendingModuleKey) {j j' : PCModuleJoin}, Alike tracked j j' →
      Alike tracked (keys.foldl (·.joinGroup multi functionName) j)
        (keys.foldl (·.joinGroup multi' functionName) j') := by
  intro keys
  induction keys with
  | nil => exact fun h => h
  | cons key keys ih => exact fun h => ih (h.step hmulti functionName key)

theorem Alike.countP {tracked : Bool} {j j' : PCModuleJoin} (h : Alike tracked j j')
    (htracked : tracked = true) (attrib : PCAttrib) :
    (j.rows.countP (·.attrib == attrib)) = j'.rows.countP (·.attrib == attrib) := by
  subst htracked
  have hc := h.rows.countP_eq fun c => c.attrib == attrib
  rw [countP_map, countP_map] at hc
  exact hc

/-! ## Both tiers -/

structure SameGroups (tracked : Bool) (t t' : Timeline) : Prop where
  pending : ∀ k, t.pending.content k = t'.pending.content k
  pendingModule : ∀ k, t.pendingModule.content k = t'.pendingModule.content k
  multi : tracked = true → ∀ pid, t.isMultiDeviceLocked pid = t'.isMultiDeviceLocked pid
  processes : tracked = true → t.multiDeviceProcesses = t'.multiDeviceProcesses
  capped : tracked = true → t.deviceTrackingCapped = t'.deviceTrackingCapped
  refused : tracked = true → ∀ pid, t.isGraphRefusedLocked pid = t'.isGraphRefusedLocked pid

theorem joinPendingModuleLocked_alike {tracked : Bool} {t t' : Timeline}
    (h : SameGroups tracked t t') (functionName : PendingModuleKey → Option String)
    {rows rows' : List ExecRow}
    (hrows : (rows.map (ExecRow.content tracked)).Perm (rows'.map (ExecRow.content tracked)))
    (hnodup : ((rows.map (ExecRow.content tracked)).map fun c => c.exec.startNs).Nodup) :
    Alike tracked (t.joinPendingModuleLocked functionName rows) (t'.joinPendingModuleLocked functionName rows') := by
  have h₀ : Alike tracked
      { idx := t.pendingModule, rows := rows, stats := {
        multiDeviceProcesses := t.multiDeviceProcesses
        deviceTrackingCapped := t.deviceTrackingCapped } }
      { idx := t'.pendingModule, rows := rows', stats := {
        multiDeviceProcesses := t'.multiDeviceProcesses
        deviceTrackingCapped := t'.deviceTrackingCapped } } := by
    refine ⟨hrows, hnodup, h.pendingModule, rfl, ?_⟩
    cases tracked with
    | false => rfl
    | true => rw [h.processes rfl, h.capped rfl]
  have hkeys := PendingIndex.keys_perm h.pendingModule
  have hsize : t.pendingModule.store.byKey.size = t'.pendingModule.store.byKey.size := by
    rw [← length_sortedKeys, ← length_sortedKeys, PendingIndex.sortedKeys, PendingIndex.sortedKeys,
      insertionSort_keys_eq hkeys]
  unfold Timeline.joinPendingModuleLocked
  dsimp only
  rw [hsize]
  split
  · exact h₀
  · have hj := h₀.foldl h.multi functionName t.pendingModule.sortedKeys
    have hsorted : t'.pendingModule.sortedKeys = t.pendingModule.sortedKeys :=
      (insertionSort_keys_eq hkeys).symm
    rw [hsorted]
    have hstats := PCJoinStats.compared_tags hj.stats hj.samples (hj.countP · .kernelAmbiguous)
      (hj.countP · .kernelMultiDevice)
    exact { hj with stats := hstats }

theorem deviceTrackingCapped_joinGroup (multi : Nat → Bool)
    (functionName : PendingModuleKey → Option String) (j : PCModuleJoin) (key : PendingModuleKey) :
    (j.joinGroup multi functionName key).stats.deviceTrackingCapped =
      j.stats.deviceTrackingCapped := by
  unfold PCModuleJoin.joinGroup
  split
  · rfl
  · split
    · rfl
    · dsimp only
      split <;> rfl

theorem deviceTrackingCapped_collectLocked (t : Timeline)
    (functionName : PendingModuleKey → Option String) (execs : List GPUKernelExec) :
    (t.collectLocked functionName execs).2.pcJoin.deviceTrackingCapped = t.deviceTrackingCapped := by
  have hfold : ∀ (keys : List PendingModuleKey) (j : PCModuleJoin),
      (keys.foldl (·.joinGroup t.isMultiDeviceLocked functionName) j).stats.deviceTrackingCapped =
        j.stats.deviceTrackingCapped := by
    intro keys
    induction keys with
    | nil => exact fun _ => rfl
    | cons key keys ih =>
      exact fun j => (ih _).trans (deviceTrackingCapped_joinGroup _ functionName j key)
  change (t.joinPendingModuleLocked functionName (joinPending t.pending execs).2.1).stats.deviceTrackingCapped = _
  unfold Timeline.joinPendingModuleLocked
  dsimp only
  split
  · rfl
  · exact hfold _ _

/-- What a view has of the PC join, without the order of its samples. -/
structure ViewContent where
  exec : GPUKernelExec
  samples : Multiset GPUPCSample
  attrib : PCAttrib

def ExecutionView.content (tracked : Bool) (v : ExecutionView) : ViewContent where
  exec := v.exec
  samples := (v.pcSamples.map Emission.sample : List GPUPCSample)
  attrib := if tracked then v.pcAttrib else .empty

def RowContent.pcAttrib (c : RowContent) : PCAttrib :=
  if c.exactServed then .exact
  else if c.samples.card > 0 then c.attrib
  else .empty

/-- Whether a row's exact attribution is withdrawn, where its process is refused. -/
def RowContent.refused (refusedProcess : Nat → Bool) (c : RowContent) : Bool :=
  refusedProcess c.exec.correlation.pid && c.pcAttrib == .exact

def RowContent.view (tracked : Bool) (refusedProcess : Nat → Bool) (c : RowContent) : ViewContent where
  exec := c.exec
  samples := c.samples
  attrib :=
    if tracked then if c.refused refusedProcess then .graphRefused else c.pcAttrib else .empty

theorem pcAttrib_content (r : ExecRow) : (r.content true).pcAttrib = r.pcAttrib := by
  unfold RowContent.pcAttrib ExecRow.pcAttrib ExecRow.content
  rw [Multiset.coe_card, length_map]
  rfl

theorem refused_disclose (t : Timeline) (r : ExecRow) :
    (t.disclose r).refused = (r.content true).refused t.isGraphRefusedLocked := by
  rw [RowContent.refused, pcAttrib_content]
  rfl

theorem view_disclose (tracked : Bool) (t : Timeline) (r : ExecRow) : (t.disclose r).view.content tracked =
      (r.content tracked).view tracked t.isGraphRefusedLocked := by
  cases tracked with
  | false => rfl
  | true =>
    rw [RowContent.view, if_pos rfl, ← refused_disclose, pcAttrib_content]
    rfl

/-- Timelines that hold the same samples are joined alike: the same samples go to the same
executions, the same is counted, and the same attributions will be refused. -/
theorem collectLocked_alike {tracked : Bool} {t t' : Timeline} (h : SameGroups tracked t t')
    (functionName : PendingModuleKey → Option String) {execs execs' : List GPUKernelExec}
    (hexecs : execs.Perm execs') (hstart : (execs.map GPUKernelExec.startNs).Nodup)
    (hcorr : (execs.map GPUKernelExec.correlation).Nodup) :
    (((t.collectLocked functionName execs).2.rows.map fun r => r.view.content tracked).Perm
      ((t'.collectLocked functionName execs').2.rows.map fun r => r.view.content tracked)) ∧
    (t.collectLocked functionName execs).2.pcJoin.compared tracked =
      (t'.collectLocked functionName execs').2.pcJoin.compared tracked ∧
    (tracked = true → ((t.collectLocked functionName execs).2.rows.map fun r => r.refused.toNat).sum =
        ((t'.collectLocked functionName execs').2.rows.map fun r => r.refused.toNat).sum) := by
  obtain ⟨hrows, hn⟩ := joinPending_content tracked execs t.pending hcorr
  obtain ⟨hrows', hn'⟩ := joinPending_content tracked execs' t'.pending ((hexecs.map _).nodup_iff.mp hcorr)
  simp only [← h.pending] at hrows' hn'
  have hrowsPerm : ((joinPending t.pending execs).2.1.map (ExecRow.content tracked)).Perm
      ((joinPending t'.pending execs').2.1.map (ExecRow.content tracked)) := by
    rw [hrows, hrows']
    exact hexecs.map _
  have hj := joinPendingModuleLocked_alike h functionName hrowsPerm (by rw [hrows, map_map]; exact hstart)
  have hexact : (joinPending t.pending execs).2.2 = (joinPending t'.pending execs').2.2 := by
    rw [hn, hn']
    exact (hexecs.map _).sum_eq
  refine ⟨?_, ?_, fun htracked => ?_⟩
  · change (List.map _ (List.map t.disclose _)).Perm (List.map _ (List.map t'.disclose _))
    have hp := hj.rows.map (RowContent.view tracked t.isGraphRefusedLocked)
    simp only [map_map, Function.comp_def] at hp ⊢
    simp only [view_disclose]
    refine hp.trans (.of_eq (map_congr_left fun r _ => ?_))
    cases tracked with
    | false => rfl
    | true => rw [funext (h.refused rfl)]
  · have hc := congrArg (fun s : PCJoinStats =>
      { s with attributedExact := (joinPending t.pending execs).2.2 }) hj.stats
    cases tracked with
    | false =>
      refine hc.trans ?_
      rw [hexact]
      rfl
    | true =>
      refine hc.trans ?_
      rw [hexact]
      rfl
  · subst htracked
    change (List.map _ (List.map t.disclose _)).sum = (List.map _ (List.map t'.disclose _)).sum
    have hp := hj.rows.map fun c => (c.refused t.isGraphRefusedLocked).toNat
    simp only [map_map, Function.comp_def] at hp ⊢
    simp only [refused_disclose, ← funext (h.refused rfl)]
    exact hp.sum_eq

end PerfAgent.Gpu
