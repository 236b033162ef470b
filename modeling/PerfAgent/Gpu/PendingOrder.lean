import PerfAgent.Gpu.OrderPositions
import PerfAgent.Gpu.SnapshotJoin

/-!
# The order slices of the pending stores

A sample appends at most one position and then walks; a snapshot deletes groups and does not
walk, so it leaves their positions behind.  `Tidy` is the state in which these stand at the
front, where the next sample's walk passes them, and `SpentInTurn` the condition on a snapshot that
keeps it so.  What a snapshot consumes is read off the state before it: the groups of the
drained executions' correlations, and the module groups that are `joinable`.
-/

namespace PerfAgent.Gpu

open FIFOStore List AssocMap

section Stores

variable {K : Type} [DecidableEq K]

/-- The groups `gone` leave no superseded position behind that stays: none goes when nothing
walks, and those that go are older than those that stay, so the next walk passes them. -/
def SpentInTurn (horizon : Nat) (s : FIFOStore K PendingSamples) (gone : K → Bool) : Prop :=
  ∀ x ∈ s.byKey.entries, gone x.1 = true → 0 < horizon ∧ ∀ y ∈ s.byKey.entries, gone y.1 = false → x.2.seq < y.2.seq

instance (horizon : Nat) (s : FIFOStore K PendingSamples) (gone : K → Bool) : Decidable (SpentInTurn horizon s gone) :=
  inferInstanceAs (Decidable (∀ x ∈ s.byKey.entries, _ → _ ∧ _))

/-- The superseded positions ahead of the walk are at its front, and there are none when
nothing walks. -/
structure Tidy (cap horizon : Nat) (s : FIFOStore K PendingSamples) : Prop where
  wf : s.WF
  compacted : s.order.Compacted
  length : s.order.rest.length ≤ cap
  split : ∃ dead live, s.order.rest = dead ++ live ∧ s.AllDead dead ∧ s.AllLive live ∧ (horizon = 0 → dead = [])

variable {cap horizon : Nat} {s : FIFOStore K PendingSamples}

theorem tidy_empty : Tidy cap horizon ({} : FIFOStore K PendingSamples) where
  wf := wf_empty
  compacted := .inl (by simp)
  length := Nat.zero_le _
  split := ⟨[], [], rfl, nofun, nofun, fun _ => rfl⟩

theorem Tidy.length_le (h : Tidy cap horizon s) : s.order.order.length ≤ orderBound cap :=
  OrderedFIFO.length_order_le h.wf.head_le h.compacted h.length

theorem Tidy.consume (h : Tidy cap horizon s) {gone : K → Bool} (hgone : SpentInTurn horizon s gone)
    {s' : FIFOStore K PendingSamples} (ho : s'.order = s.order)
    (hm : ∀ k, s'.byKey.find? k = if gone k then none else s.byKey.find? k) :
    Tidy cap horizon s' := by
  obtain ⟨m, f⟩ := s'
  subst ho
  obtain ⟨dead, live, hrest, hdead, hlive, hz⟩ := h.split
  have hsub : ∀ {k v}, m.find? k = some v → gone k = false ∧ s.byKey.find? k = some v := by
    intro k v hv
    rw [hm] at hv
    split at hv
    · cases hv
    · next hg => exact ⟨by simpa using hg, hv⟩
  have hkeep : ∀ p ∈ live, gone p.key = false → isLive { s with byKey := m } p.key p.seq = true := by
    intro p hp hg
    obtain ⟨v, hv, hseq⟩ := isLive_iff.mp (hlive p hp)
    exact isLive_iff.mpr ⟨v, by rw [hm, hg]; exact hv, hseq⟩
  have hdead' : ∀ p : SeqPos K, (gone p.key = true ∨ s.isLive p.key p.seq = false) →
      isLive { s with byKey := m } p.key p.seq = false := by
    intro p hp
    by_contra hne
    obtain ⟨v, hv, hseq⟩ := isLive_iff.mp (by simpa using hne)
    obtain ⟨hg, hv'⟩ := hsub hv
    rcases hp with hp | hp
    · rw [hg] at hp
      cases hp
    · rw [isLive_iff.mpr ⟨v, hv', hseq⟩] at hp
      cases hp
  have hentry : ∀ p ∈ live, ∃ x ∈ s.byKey.entries, x.1 = p.key ∧ x.2.seq = p.seq := by
    intro p hp
    obtain ⟨v, hv, hseq⟩ := isLive_iff.mp (hlive p hp)
    exact ⟨⟨p.key, v⟩, AList.mem_lookup_iff.mp hv, rfl, hseq⟩
  refine ⟨⟨h.wf.head_le, h.wf.sorted, h.wf.le_seq, fun k v hv => h.wf.live_mem k v (hsub hv).2⟩,
    h.compacted, h.length, dead ++ live.takeWhile (fun p => gone p.key),
    live.dropWhile (fun p => gone p.key), ?_, ?_, ?_, ?_⟩
  · rw [append_assoc, takeWhile_append_dropWhile]
    exact hrest
  · intro p hp
    rcases mem_append.mp hp with hp | hp
    · exact hdead' p (.inr (hdead p hp))
    · exact hdead' p (.inl (mem_takeWhile_imp (p := fun p : SeqPos K => gone p.key) hp))
  · intro p hp
    refine hkeep p ((dropWhile_sublist _).subset hp) ?_
    -- the first kept position is older than `p`, so `p` cannot have gone
    cases hd : live.dropWhile (fun p => gone p.key) with
    | nil => rw [hd] at hp; cases hp
    | cons q qs =>
      have hq : gone q.key = false :=
        not_of_dropWhile_eq_cons (p := fun p : SeqPos K => gone p.key) hd
      rw [hd] at hp
      rcases mem_cons.mp hp with rfl | hp
      · exact hq
      · by_contra hg
        have hqs : (q :: qs).Sublist live := hd ▸ dropWhile_sublist _
        have hlt : q.seq < p.seq := by
          have hs := h.wf.sorted
          rw [hrest] at hs
          exact rel_of_pairwise_cons ((pairwise_append.mp hs).2.1.sublist hqs) hp
        obtain ⟨x, hx, hxk, hxs⟩ := hentry p (hqs.subset (mem_cons_of_mem _ hp))
        obtain ⟨y, hy, hyk, hys⟩ := hentry q (hqs.subset mem_cons_self)
        have := (hgone x hx (by rw [hxk]; simpa using hg)).2 y hy (by rw [hyk]; exact hq)
        omega
  · intro hzero
    rw [hz hzero, nil_append, eq_nil_iff_forall_not_mem]
    intro p hp
    obtain ⟨x, hx, hxk, -⟩ := hentry p ((takeWhile_sublist _).subset hp)
    have hg : gone p.key = true := mem_takeWhile_imp (p := fun p : SeqPos K => gone p.key) hp
    have := (hgone x hx (by rw [hxk]; exact hg)).1
    omega

theorem Tidy.setEntry_split {idx : PendingIndex K} (h : Tidy cap horizon idx.store) (k : K)
    {v : PendingSamples} (hseq : v.seq = (idx.entryFor k).2.seq) (total : Nat) :
    (idx.setEntry k v total).store.WF ∧ (idx.setEntry k v total).store.order.Compacted ∧
    ∃ dead live, (idx.setEntry k v total).store.order.rest = dead ++ live ∧
      (idx.setEntry k v total).store.AllDead dead ∧
      (idx.setEntry k v total).store.AllLive live ∧ (horizon = 0 → dead = []) := by
  obtain ⟨dead, live, hrest, hdead, hlive, hz⟩ := h.split
  unfold PendingIndex.setEntry
  unfold PendingIndex.entryFor at hseq ⊢
  cases hf : idx.store.byKey.find? k with
  | some entry =>
    simp only [hf] at hseq ⊢
    have hsame : ∀ p : SeqPos K, isLive ⟨idx.store.byKey.put k v, idx.store.order⟩ p.key p.seq =
        idx.store.isLive p.key p.seq := by
      intro p
      unfold FIFOStore.isLive
      simp only [find?_put]
      split
      · next hk =>
          rw [hk, hf]
          simp only [Option.any_some]
          exact congrArg (· == p.seq) hseq
      · rfl
    exact ⟨h.wf.put hf hseq, h.compacted, dead, live, hrest,
      fun p hp => (hsame p).trans (hdead p hp), fun p hp => (hsame p).trans (hlive p hp), hz⟩
  | none =>
    simp only [hf] at hseq ⊢
    have hv : { v with seq := (idx.store.order.insert k).2 } = v := by rw [← hseq]
    have hwf : (idx.store.insert k fun n => { v with seq := n }).WF := h.wf.insert k fun _ => rfl
    simp only [FIFOStore.insert, hv] at hwf
    have hlater : ∀ p ∈ idx.store.order.rest, p.seq ≠ idx.store.order.seq + 1 := fun p hp => by
      have := h.wf.le_seq p hp
      omega
    have hsame : ∀ p ∈ idx.store.order.rest, isLive ⟨idx.store.byKey.put k v,
        (idx.store.order.insert k).1⟩ p.key p.seq = idx.store.isLive p.key p.seq := by
      intro p hp
      unfold FIFOStore.isLive
      simp only [find?_put]
      split
      · next hk =>
          rw [hk, hf]
          simp only [Option.any_some, Option.any_none, beq_eq_false_iff_ne]
          exact fun heq => hlater p hp (heq.symm.trans hseq)
      · rfl
    refine ⟨hwf, h.compacted.insert k, dead, live ++ [⟨k, idx.store.order.seq + 1⟩], ?_, ?_, ?_, hz⟩
    · rw [OrderedFIFO.rest_insert h.wf.head_le, hrest, append_assoc]
    · intro p hp
      rw [hsame p (by rw [hrest]; exact mem_append_left _ hp)]
      exact hdead p hp
    · intro p hp
      rcases mem_append.mp hp with hp | hp
      · rw [hsame p (by rw [hrest]; exact mem_append_right _ hp)]
        exact hlive p hp
      · rw [mem_singleton.mp hp]
        exact isLive_iff.mpr ⟨v, find?_put_self _ _ _, hseq⟩

theorem Tidy.emit {idx : PendingIndex K} (h : Tidy cap horizon idx.store) (sampleCap newest : Nat)
    (k : K) (e : Emission) :
    Tidy cap horizon (idx.emit cap sampleCap newest horizon k e).1.store := by
  have happend : ∃ v total, v.seq = (idx.entryFor k).2.seq ∧ (idx.append sampleCap k e).1 = idx.setEntry k v total := by
    unfold PendingIndex.append
    dsimp only
    split
    · exact ⟨_, _, rfl, rfl⟩
    · refine ⟨_, _, ?_, rfl⟩
      rfl
  obtain ⟨v, total, hseq, heq⟩ := happend
  obtain ⟨hwf, hc, dead, live, hrest, hdead, hlive, hz⟩ := h.setEntry_split k hseq total
  rw [← heq] at hwf hc hrest hdead hlive
  obtain ⟨hwf', -, hsize, -⟩ := hwf.evict_spec cap newest horizon
  have hall := @WF.allLive_evict K PendingSamples _ _ _ hwf cap newest horizon [] dead live hrest (by simp)
    hdead hlive hz
  have hlen := hwf'.length_rest hall
  change Tidy cap horizon ((idx.append sampleCap k e).1.store.evict cap newest horizon).1
  exact ⟨hwf', compacted_evict _ _ _ hc, hlen.trans_le hsize, [], _, rfl,
    fun _ hp => absurd hp not_mem_nil, hall, fun _ => rfl⟩

end Stores

/-! ## What a snapshot consumes -/

theorem joinPending_store : ∀ (execs : List GPUKernelExec) (idx : PendingIndex CorrelationID),
    (joinPending idx execs).1.store.order = idx.store.order ∧
    ∀ k, (joinPending idx execs).1.store.byKey.find? k =
      if (execs.map GPUKernelExec.correlation).contains k then none
      else idx.store.byKey.find? k := by
  intro execs
  induction execs with
  | nil => exact fun idx => ⟨rfl, fun k => rfl⟩
  | cons exec execs ih =>
    intro idx
    unfold joinPending
    cases hf : idx.store.byKey.find? exec.correlation with
    | none =>
      obtain ⟨ho, hk⟩ := ih idx
      refine ⟨ho, fun k => (hk k).trans ?_⟩
      by_cases hkey : k = exec.correlation
      · simp [hkey, hf]
      · simp [hkey]
    | some entry =>
      obtain ⟨ho, hk⟩ := ih (idx.consume exec.correlation entry)
      refine ⟨ho, fun k => (hk k).trans ?_⟩
      by_cases hkey : k = exec.correlation
      · simp [hkey, PendingIndex.consume]
      · simp [hkey, PendingIndex.consume, find?_del_of_ne _ hkey]

/-- Whether the module tier finds an execution for a group: one of its process and of the
kernel it names, that the exact tier did not serve. -/
def joinable (rows : List ExecRow) (functionName : PendingModuleKey → Option String) (key : PendingModuleKey) : Bool :=
  key.pid != 0 && (functionName key).any fun name => rows.any fun r =>
    !r.exactServed && r.exec.kernelName != "" && r.exec.correlation.pid == key.pid &&
      r.exec.kernelName == name

theorem isSome_pickTarget : ∀ (cs : List (ExecRow × Nat)) (target : Option (ExecRow × Nat)),
    (pickTarget cs target).isSome = (target.isSome || cs.any fun c => !c.1.exactServed) := by
  intro cs
  induction cs with
  | nil => simp [pickTarget]
  | cons c cs ih =>
    intro target
    unfold pickTarget
    cases hc : c.1.exactServed with
    | true => simp [ih, hc]
    | false =>
      cases target with
      | none => simp [ih, hc]
      | some best =>
        simp only [Bool.false_eq_true, if_false]
        split <;> simp [ih]

theorem isSome_pickTarget_byKernel (rows : List ExecRow) {pid : Nat} (hpid : pid ≠ 0) (name : String) :
    (pickTarget (byKernel rows pid name) none).isSome = rows.any fun r =>
      !r.exactServed && r.exec.kernelName != "" && r.exec.correlation.pid == pid &&
        r.exec.kernelName == name := by
  rw [isSome_pickTarget, Option.isSome_none, Bool.false_or, byKernel, any_filter,
    Bool.eq_iff_iff, any_eq_true, any_eq_true]
  constructor
  · rintro ⟨⟨r, i⟩, hr, hc⟩
    simp only [ne_eq, Bool.and_eq_true, decide_eq_true_eq, Bool.not_eq_true'] at hc
    obtain ⟨⟨hkernel, -, rfl, rfl⟩, hfree⟩ := hc
    refine ⟨r, mem_of_getElem? (mem_zipIdx_iff_getElem?.mp hr), ?_⟩
    simp [hkernel, hfree]
  · rintro ⟨r, hr, hc⟩
    simp only [Bool.and_eq_true, Bool.not_eq_true', bne_iff_ne, beq_iff_eq] at hc
    obtain ⟨⟨⟨hfree, hkernel⟩, rfl⟩, rfl⟩ := hc
    obtain ⟨i, hi⟩ := mem_iff_getElem?.mp hr
    refine ⟨(r, i), mem_zipIdx_iff_getElem?.mpr hi, ?_⟩
    simp [hkernel, hfree, hpid]

def ExecRow.target (r : ExecRow) : GPUKernelExec × Bool := (r.exec, r.exactServed)

theorem joinable_congr {rows rows' : List ExecRow} (h : rows.map ExecRow.target = rows'.map ExecRow.target)
    (functionName : PendingModuleKey → Option String) (key : PendingModuleKey) :
    joinable rows functionName key = joinable rows' functionName key := by
  have hany : ∀ p : GPUKernelExec × Bool → Bool,
      (rows.any fun r => p r.target) = rows'.any fun r => p r.target := fun p => by
    have := congrArg (List.any · p) h
    simpa [any_map, Function.comp_def] using this
  unfold joinable
  congr 1
  refine congrArg (Option.any · (functionName key)) (funext fun name => ?_)
  exact hany fun t => !t.2 && t.1.kernelName != "" && t.1.correlation.pid == key.pid &&
    t.1.kernelName == name

variable (multi : Nat → Bool)

theorem joinGroup_store (functionName : PendingModuleKey → Option String) (j : PCModuleJoin) (key : PendingModuleKey) :
    (j.joinGroup multi functionName key).idx.store.order = j.idx.store.order ∧
    (j.joinGroup multi functionName key).rows.map ExecRow.target = j.rows.map ExecRow.target ∧
    ∀ k, (j.joinGroup multi functionName key).idx.store.byKey.find? k =
      if k = key ∧ joinable j.rows functionName key = true then none
      else j.idx.store.byKey.find? k := by
  unfold PCModuleJoin.joinGroup
  split
  · next hpid => exact ⟨rfl, rfl, fun k => by simp [joinable, hpid]⟩
  next hpid =>
  split
  · next hname => exact ⟨rfl, rfl, fun k => by simp [joinable, hname]⟩
  next name hname =>
  have hj : joinable j.rows functionName key = (pickTarget (byKernel j.rows key.pid name) none).isSome := by
    rw [isSome_pickTarget_byKernel _ hpid]
    simp [joinable, hname, hpid]
  dsimp only
  split
  · next hnone => exact ⟨rfl, rfl, fun k => by simp [hj, hnone]⟩
  next row target htarget =>
  obtain ⟨hrow, -, -⟩ := pickTarget_byKernel htarget
  obtain ⟨l₁, l₂, hl, hmod⟩ := modify_split hrow
  refine ⟨rfl, ?_, fun k => ?_⟩
  · rw [hmod, hl]
    simp [ExecRow.target]
  · simp only [PendingIndex.consume, find?_del, hj, htarget, Option.isSome_some, and_true]

theorem foldl_joinGroup_store (functionName : PendingModuleKey → Option String) :
    ∀ (keys : List PendingModuleKey) (j : PCModuleJoin),
    (keys.foldl (·.joinGroup multi functionName) j).idx.store.order = j.idx.store.order ∧
    ∀ k, (keys.foldl (·.joinGroup multi functionName) j).idx.store.byKey.find? k =
      if k ∈ keys ∧ joinable j.rows functionName k = true then none
      else j.idx.store.byKey.find? k := by
  intro keys
  induction keys with
  | nil => exact fun j => ⟨rfl, fun k => by simp⟩
  | cons key keys ih =>
    intro j
    obtain ⟨ho, hrows, hk⟩ := joinGroup_store multi functionName j key
    obtain ⟨ho', hk'⟩ := ih (j.joinGroup multi functionName key)
    refine ⟨ho'.trans ho, fun k => ?_⟩
    rw [foldl_cons, hk', hk, joinable_congr hrows]
    by_cases hkey : k = key
    · subst hkey
      by_cases hj : joinable j.rows functionName k = true <;> simp [hj]
    · simp [hkey]

theorem mem_sortedKeys {idx : PendingIndex PendingModuleKey} {k : PendingModuleKey}
    {v : PendingSamples} (h : idx.store.byKey.find? k = some v) : k ∈ idx.sortedKeys := by
  rw [PendingIndex.sortedKeys, mem_insertionSort]
  exact mem_map.mpr ⟨⟨k, v⟩, AList.mem_lookup_iff.mp h, rfl⟩

theorem joinPendingModuleLocked_store (t : Timeline)
    (functionName : PendingModuleKey → Option String) (rows : List ExecRow) :
    (t.joinPendingModuleLocked functionName rows).idx.store.order = t.pendingModule.store.order ∧
    ∀ k, (t.joinPendingModuleLocked functionName rows).idx.store.byKey.find? k =
      if joinable rows functionName k then none else t.pendingModule.store.byKey.find? k := by
  unfold Timeline.joinPendingModuleLocked
  dsimp only
  split
  · next hz =>
      refine ⟨rfl, fun k => ?_⟩
      have hnone : t.pendingModule.store.byKey.find? k = none := by
        cases hf : t.pendingModule.store.byKey.find? k with
        | none => rfl
        | some v => exact absurd (size_pos_of_find? hf) (by omega)
      simp [hnone]
  · obtain ⟨ho, hk⟩ := foldl_joinGroup_store t.isMultiDeviceLocked functionName
      t.pendingModule.sortedKeys { idx := t.pendingModule, rows := rows, stats := _ }
    refine ⟨ho, fun k => (hk k).trans ?_⟩
    by_cases hj : joinable rows functionName k = true
    · cases hf : t.pendingModule.store.byKey.find? k with
      | none => simp
      | some v => simp [hj, mem_sortedKeys hf]
    · simp [hj]

end PerfAgent.Gpu
