import PerfAgent.Gpu.DerivedLabels

/-!
# The budget of `gpu_pc` labels

Projections that share a `PCLabelBudget` ask it for one offset after the other, in the order of the
executions and of their PC samples (`projections_labels`), whatever else they do.  So what holds of
the budget over a list of offsets holds over any number of projections.
-/

namespace PerfAgent.Gpu

open List

open Pprof (ascii ProfileSample)

/-! ## Projections that share a budget -/

/-- `NewPCLabelBudget`. -/
def newPCLabelBudget (max : Int) : PCLabelBudget := { ceiling := if max ≤ 0 then 20000 else max.toNat }

structure ProjectionStats where
  distinctPCLabels : UInt64
  pcLabelCap : UInt64
  pcLabelsSuppressed : UInt64
deriving DecidableEq

def PCLabelBudget.stats (b : PCLabelBudget) : ProjectionStats where
  distinctPCLabels := UInt64.ofNat b.seen.length
  pcLabelCap := UInt64.ofNat b.ceiling
  pcLabelsSuppressed := b.suppressed

/-- One call of `ProjectExecutionsWith`, with the answers that it gets from the module store. -/
structure ProjectionCall where
  omitCorrelation : Bool
  answers : Nat → Nat → Resolution
  snap : Snapshot

/-- What a call returns: the samples, each with the index of its execution, and the statistics. -/
abbrev Projected := List (ProfileSample × Nat) × ProjectionStats

def ProjectionCall.run (call : ProjectionCall) (budget : PCLabelBudget) : Option (Projected × PCLabelBudget) :=
  (projectExecutionsWith call.omitCorrelation call.answers budget call.snap).map fun r =>
    let stats := r.2.stats
    ((r.1, { stats with pcLabelsSuppressed := stats.pcLabelsSuppressed - budget.suppressed }), r.2)

def projections (budget : PCLabelBudget) : List ProjectionCall → Option (List Projected × PCLabelBudget)
  | [] => some ([], budget)
  | call :: calls =>
    (call.run budget).bind fun r => (projections r.2 calls).map fun r' => (r.1 :: r'.1, r'.2)

/-! ## What the samples show -/

def gpuPC (s : ProfileSample × Nat) : Option (List UInt8) := s.1.labels.find? (ascii "gpu_pc")

def pcLabelValue (off : Nat) : List UInt8 := ascii "0x" ++ Pprof.hexOf (UInt64.ofNat off)

def ProjectionCall.offsets (call : ProjectionCall) : List Nat := call.snap.executions.flatMap viewOffsets

def ProjectionCall.isPC (call : ProjectionCall) (i : Nat) : Bool :=
  (call.snap.executions[i]?).any fun view => view.pcSamples ≠ []

/-- The `gpu_pc` labels of the samples that were projected from PC samples. -/
def ProjectionCall.labels (call : ProjectionCall) (out : Projected) : List (Option (List UInt8)) :=
  (out.1.filter fun s => call.isPC s.2).map gpuPC

variable {offs : List Nat}

/-! ## The budget -/

namespace PCLabelBudget

variable {b : PCLabelBudget}

structure Within (b : PCLabelBudget) : Prop where
  nodup : b.seen.Nodup
  length : b.seen.length ≤ b.ceiling

theorem within_new (max : Int) : (newPCLabelBudget max).Within := ⟨nodup_nil, Nat.zero_le _⟩

@[simp] theorem ceiling_admits (off : Nat) : (b.admits off).1.ceiling = b.ceiling := by
  unfold admits
  split
  · rfl
  · split <;> rfl

theorem admits_of_mem {off : Nat} (h : off ∈ b.seen) : b.admits off = (b, true) := if_pos h

theorem Within.admits (h : b.Within) (off : Nat) : (b.admits off).1.Within := by
  unfold PCLabelBudget.admits
  split
  · exact h
  · next hnew =>
      split
      · exact ⟨h.nodup, h.length⟩
      · next hlt => exact ⟨nodup_cons.mpr ⟨hnew, h.nodup⟩, Nat.lt_of_not_le hlt⟩

theorem seen_admits (off : Nat) : b.seen ⊆ (b.admits off).1.seen := by
  unfold admits
  split
  · exact fun _ ho => ho
  · split
    · exact fun _ ho => ho
    · exact subset_cons_self ..

theorem mem_seen_of_admits {off : Nat} (h : (b.admits off).2 = true) : off ∈ (b.admits off).1.seen := by
  unfold admits at h ⊢
  split
  · next hmem => exact hmem
  · next hnew =>
      rw [if_neg hnew] at h
      split at h
      · cases h
      · next hlt =>
          rw [if_neg hlt]
          exact mem_cons_self ..

theorem suppressed_admits (off : Nat) :
    (b.admits off).1.suppressed = b.suppressed + if (b.admits off).2 then 0 else 1 := by
  unfold admits
  split
  · exact (UInt64.add_zero _).symm
  · split
    · rfl
    · exact (UInt64.add_zero _).symm

@[simp] theorem ceiling_admitAll (offs : List Nat) : (b.admitAll offs).1.ceiling = b.ceiling := by
  induction offs generalizing b with
  | nil => rfl
  | cons off offs ih => rw [admitAll_cons, ih, ceiling_admits]

theorem Within.admitAll (h : b.Within) (offs : List Nat) : (b.admitAll offs).1.Within := by
  induction offs generalizing b with
  | nil => exact h
  | cons off offs ih => exact ih (h.admits off)

theorem seen_admitAll (offs : List Nat) : b.seen ⊆ (b.admitAll offs).1.seen := by
  induction offs generalizing b with
  | nil => exact fun _ ho => ho
  | cons off offs ih => exact fun _ ho => ih (seen_admits off ho)

theorem mem_seen_of_admitAll {x : Nat × Bool} (hx : x ∈ offs.zip (b.admitAll offs).2) (h : x.2 = true) :
    x.1 ∈ (b.admitAll offs).1.seen := by
  induction offs generalizing b with
  | nil => cases hx
  | cons off offs ih =>
    rw [admitAll_cons] at hx ⊢
    rcases mem_cons.mp hx with rfl | hx
    · exact seen_admitAll offs (mem_seen_of_admits h)
    · exact ih hx

theorem admitAll_of_mem {off : Nat} (h : off ∈ b.seen) {j : Nat} (hj : offs[j]? = some off) :
    (b.admitAll offs).2[j]? = some true := by
  induction offs generalizing b j with
  | nil => cases hj
  | cons o offs ih =>
    rw [admitAll_cons]
    cases j with
    | zero =>
      cases hj
      rw [admits_of_mem h]
      rfl
    | succ j => exact ih (seen_admits o h) hj

theorem admitAll_sticky {off : Nat} {i j : Nat} (hij : i ≤ j) (hi : offs[i]? = some off) (hj : offs[j]? = some off)
    (h : (b.admitAll offs).2[i]? = some true) : (b.admitAll offs).2[j]? = some true := by
  induction offs generalizing b i j with
  | nil => cases hi
  | cons o offs ih =>
    rw [admitAll_cons] at h ⊢
    cases i with
    | zero =>
      cases hi
      cases j with
      | zero => exact h
      | succ j => exact admitAll_of_mem (mem_seen_of_admits (Option.some.inj h)) hj
    | succ i =>
      cases j with
      | zero => exact absurd hij (Nat.not_succ_le_zero i)
      | succ j => exact ih (Nat.le_of_succ_le_succ hij) hi hj h

theorem suppressed_admitAll (offs : List Nat) :
    (b.admitAll offs).1.suppressed = b.suppressed + UInt64.ofNat ((b.admitAll offs).2.count false) := by
  induction offs generalizing b with
  | nil => exact (UInt64.add_zero _).symm
  | cons off offs ih =>
    rw [admitAll_cons]
    dsimp only
    rw [ih, suppressed_admits]
    cases (b.admits off).2 with
    | true => rw [if_pos rfl, UInt64.add_zero, count_cons_of_ne (by decide)]
    | false =>
      rw [if_neg Bool.false_ne_true, count_cons_self, UInt64.ofNat_add, UInt64.add_assoc]
      exact congrArg _ (UInt64.add_comm _ _)

end PCLabelBudget

/-! ## The labels of a view -/

theorem find?_foldl_apply_eq {steps : List LabelStep} {k : List UInt8} {x : Option (List UInt8)}
    (hsome : ∃ s ∈ steps, ascii s.1 = k) (hall : ∀ s ∈ steps, ascii s.1 = k → s.2 = x) (l : Labels) :
    (steps.foldl Labels.apply l).find? k = x := by
  induction steps generalizing l with
  | nil =>
    obtain ⟨s, hs, -⟩ := hsome
    cases hs
  | cons s steps ih =>
    obtain ⟨hs, hrest⟩ := forall_mem_cons.mp hall
    rw [foldl_cons]
    by_cases hagain : ∃ s ∈ steps, ascii s.1 = k
    · exact ih hagain hrest _
    · push Not at hagain
      obtain ⟨t, ht, htk⟩ := hsome
      rcases mem_cons.mp ht with rfl | ht
      · rw [find?_foldl_apply_of_forall hagain, Labels.find?_apply, if_pos htk.symm, hs htk]
      · exact absurd htk (hagain t ht)

theorem gpu_pc_derived : "gpu_pc" ∈ derivedLabels := by decide

theorem find?_projectionLabels (view : ExecutionView) (omitCorrelation : Bool) :
    (projectionLabels view omitCorrelation).find? (ascii "gpu_pc") = none := by
  rw [projectionLabels_eq]
  refine find?_foldl_apply_eq ⟨("gpu_pc", none), ?_, rfl⟩ (fun s hs hk => ?_) _
  · unfold projectionSteps
    simp only [append_assoc]
    exact mem_append_left _ (mem_map.mpr ⟨"gpu_pc", by decide, rfl⟩)
  · have hname := ascii_derived (projectionSteps_derived hs) gpu_pc_derived hk
    unfold projectionSteps at hs
    simp only [mem_append, mem_ite_nil_right, mem_singleton] at hs
    rcases hs with ((((((((((hr | ⟨-, rfl⟩) | ⟨-, rfl⟩) | ⟨-, rfl⟩) | ⟨-, rfl⟩) | ⟨-, rfl⟩) | rfl) | ⟨-, rfl⟩) | rfl) |
      ⟨-, rfl⟩) | rfl) | ⟨-, rfl⟩
    · obtain ⟨name, -, rfl⟩ := mem_map.mp hr
      rfl
    all_goals exact absurd hname (by simp)

theorem find?_pcLabels {view : ExecutionView} {common : Labels} (h : common.find? (ascii "gpu_pc") = none)
    (admitted : Bool) (s : GPUPCSample) (res : Resolution) :
    (pcLabels view common admitted s res).find? (ascii "gpu_pc") =
      if admitted then some (pcLabelValue s.pcOffset) else none := by
  have hname : ∀ x ∈ pcSteps view admitted s res, ascii x.1 = ascii "gpu_pc" →
      admitted = true ∧ x.2 = some (pcLabelValue s.pcOffset) := by
    intro x hx hk
    have hname := ascii_derived (mem_append_right _ (pcSteps_reserved hx)) gpu_pc_derived hk
    unfold pcSteps at hx
    simp only [mem_append, mem_ite_nil_left, mem_ite_nil_right, mem_singleton] at hx
    rcases hx with (((⟨-, rfl⟩ | ⟨hadm, rfl⟩) | rfl) | rfl) | ⟨-, ((⟨-, rfl⟩ | ⟨-, rfl⟩) | rfl)⟩
    case inl.inl.inl.inr => exact ⟨hadm, rfl⟩
    all_goals exact absurd hname (by simp)
  rw [pcLabels_eq]
  cases admitted with
  | true =>
    refine find?_foldl_apply_eq ⟨("gpu_pc", some (pcLabelValue s.pcOffset)), ?_, rfl⟩
      (fun x hx hk => (hname x hx hk).2) _
    unfold pcSteps
    simp only [mem_append, if_true, mem_singleton]
    exact .inl (.inl (.inl (.inr rfl)))
  | false =>
    rw [find?_foldl_apply_of_forall (fun x hx hk => Bool.false_ne_true (hname x hx hk).1)]
    exact h

def labelled (offs : List Nat) (admitted : List Bool) : List (Option (List UInt8)) :=
  (offs.zip admitted).map fun x => if x.2 then some (pcLabelValue x.1) else none

variable {answers : Nat → Nat → Resolution}

theorem viewSamples_gpuPC {omitCorrelation : Bool} {budget : PCLabelBudget} {v : ExecutionView × Nat}
    {r : List (ProfileSample × Nat) × PCLabelBudget} (h : viewSamples omitCorrelation answers budget v = some r) :
    r.2 = (budget.admitAll (viewOffsets v.1)).1 ∧ (∀ s ∈ r.1, s.2 = v.2) ∧
      (v.1.pcSamples = [] → ∀ s ∈ r.1, gpuPC s = none) ∧
      (v.1.pcSamples ≠ [] → r.1.map gpuPC = labelled (viewOffsets v.1) (budget.admitAll (viewOffsets v.1)).2) := by
  unfold viewSamples at h
  split at h
  · next hnil =>
      cases h
      refine ⟨?_, fun s hs => ?_, fun _ s hs => ?_, fun hne => absurd hnil hne⟩
      · unfold viewOffsets
        rw [hnil]
        rfl
      · rw [mem_singleton.mp hs]
      · rw [mem_singleton.mp hs]
        exact find?_projectionLabels v.1 omitCorrelation
  · next hne =>
      obtain ⟨ws, hd, rfl⟩ := Option.map_eq_some_iff.mp h
      have hlen : ws.length = v.1.pcSamples.length := (length_distributeExecutionWeight hd).trans (length_map ..)
      refine ⟨rfl, fun s hs => ?_, fun hnil => absurd hnil hne, fun _ => ?_⟩
      · obtain ⟨x, -, rfl⟩ := mem_map.mp hs
        rfl
      · have hgpu : ∀ x, gpuPC (pcSample v.2 v.1 omitCorrelation x) =
            if x.2 then some (pcLabelValue x.1.1.pcOffset) else none := fun x =>
          find?_pcLabels (find?_projectionLabels v.1 omitCorrelation) x.2 x.1.1 x.1.2.1
        unfold labelled
        rw [map_map, ← map_pcOffset_pcItems hlen, zip_map_left, map_map]
        exact map_congr_left fun x _ => hgpu x

variable {adm : List Bool}

theorem labelled_append {offs' : List Nat} {adm' : List Bool} (h : adm.length = offs.length) :
    labelled (offs ++ offs') (adm ++ adm') = labelled offs adm ++ labelled offs' adm' := by
  unfold labelled
  rw [zip_append h.symm, map_append]

/-! ## The labels of a projection -/

structure Shows (isPC : Nat → Bool) (budget : PCLabelBudget) (offs : List Nat)
    (r : List (ProfileSample × Nat) × PCLabelBudget) : Prop where
  after : r.2 = (budget.admitAll offs).1
  labels : (r.1.filter fun s => isPC s.2).map gpuPC = labelled offs (budget.admitAll offs).2
  only : ∀ s ∈ r.1, gpuPC s ≠ none → gpuPC s ∈ labelled offs (budget.admitAll offs).2

theorem viewSamples_shows {omitCorrelation : Bool} {budget : PCLabelBudget} {isPC : Nat → Bool}
    {v : ExecutionView × Nat} (hv : isPC v.2 = decide (v.1.pcSamples ≠ []))
    {r : List (ProfileSample × Nat) × PCLabelBudget} (h : viewSamples omitCorrelation answers budget v = some r) :
    Shows isPC budget (viewOffsets v.1) r := by
  obtain ⟨hbudget, hindex, hnil, hne⟩ := viewSamples_gpuPC h
  by_cases hpcs : v.1.pcSamples = []
  · refine ⟨hbudget, ?_, fun s hs hsome => absurd (hnil hpcs s hs) hsome⟩
    have hfilter : (r.1.filter fun s => isPC s.2) = [] := by
      refine filter_eq_nil_iff.mpr fun s hs => ?_
      rw [hindex s hs, hv, hpcs]
      exact Bool.false_ne_true
    have hoffs : viewOffsets v.1 = [] := by
      unfold viewOffsets
      rw [hpcs]
      rfl
    rw [hfilter, hoffs]
    rfl
  · have hfilter : (r.1.filter fun s => isPC s.2) = r.1 := by
      refine filter_eq_self.mpr fun s hs => ?_
      rw [hindex s hs, hv]
      exact decide_eq_true hpcs
    refine ⟨hbudget, ?_, fun s hs _ => ?_⟩
    · rw [hfilter]
      exact hne hpcs
    · rw [← hne hpcs]
      exact mem_map_of_mem hs

theorem Shows.append {isPC : Nat → Bool} {budget : PCLabelBudget} {offs' : List Nat}
    {r r' : List (ProfileSample × Nat) × PCLabelBudget} (h : Shows isPC budget offs r) (h' : Shows isPC r.2 offs' r') :
    Shows isPC budget (offs ++ offs') (r.1 ++ r'.1, r'.2) := by
  have hlabelled : labelled (offs ++ offs') (budget.admitAll (offs ++ offs')).2 =
      labelled offs (budget.admitAll offs).2 ++ labelled offs' (r.2.admitAll offs').2 := by
    rw [PCLabelBudget.admitAll_append, ← h.after]
    exact labelled_append (PCLabelBudget.length_admitAll ..)
  refine ⟨?_, ?_, fun s hs hsome => ?_⟩
  · rw [PCLabelBudget.admitAll_append, ← h.after]
    exact h'.after
  · rw [hlabelled, filter_append, map_append, h.labels, h'.labels]
  · rw [hlabelled]
    rcases mem_append.mp hs with hs | hs
    · exact mem_append_left _ (h.only s hs hsome)
    · exact mem_append_right _ (h'.only s hs hsome)

theorem viewsSamples_shows {omitCorrelation : Bool} {budget : PCLabelBudget} {isPC : Nat → Bool}
    {vs : List (ExecutionView × Nat)} (hvs : ∀ v ∈ vs, isPC v.2 = decide (v.1.pcSamples ≠ []))
    {r : List (ProfileSample × Nat) × PCLabelBudget} (h : viewsSamples omitCorrelation answers budget vs = some r) :
    Shows isPC budget (vs.flatMap fun v => viewOffsets v.1) r := by
  induction vs generalizing budget r with
  | nil =>
    cases h
    exact ⟨rfl, rfl, fun s hs => absurd hs not_mem_nil⟩
  | cons v vs ih =>
    obtain ⟨hv, hrest⟩ := forall_mem_cons.mp hvs
    obtain ⟨q, hq, h⟩ := Option.bind_eq_some_iff.mp h
    obtain ⟨q', hq', rfl⟩ := Option.map_eq_some_iff.mp h
    exact (viewSamples_shows hv hq).append (ih hrest hq')

theorem ProjectionCall.run_shows {call : ProjectionCall} {budget : PCLabelBudget} {r : Projected × PCLabelBudget}
    (h : call.run budget = some r) :
    Shows call.isPC budget call.offsets (r.1.1, r.2) ∧
      r.1.2.pcLabelsSuppressed = r.2.suppressed - budget.suppressed := by
  obtain ⟨q, hq, rfl⟩ := Option.map_eq_some_iff.mp h
  rw [projectExecutionsWith_eq] at hq
  have hviews : ∀ v ∈ call.snap.executions.zipIdx, call.isPC v.2 = decide (v.1.pcSamples ≠ []) := by
    intro v hv
    unfold ProjectionCall.isPC
    rw [mk_mem_zipIdx_iff_getElem?.mp hv]
    rfl
  have hoffsets : call.snap.executions.zipIdx.flatMap (fun v => viewOffsets v.1) = call.offsets := by
    unfold ProjectionCall.offsets
    conv_rhs => rw [← zipIdx_map_fst 0 call.snap.executions]
    rw [flatMap_map]
  exact ⟨hoffsets ▸ viewsSamples_shows hviews hq, rfl⟩

theorem forall₂_labelled (h : adm.length = offs.length) :
    List.Forall₂ (fun off l => l = none ∨ l = some (pcLabelValue off)) offs (labelled offs adm) := by
  induction offs generalizing adm with
  | nil => exact .nil
  | cons off offs ih =>
    cases adm with
    | nil => cases h
    | cons a adm =>
      refine .cons ?_ (ih (Nat.succ.inj h))
      cases a with
      | true => exact .inr rfl
      | false => exact .inl rfl

theorem count_none_labelled (h : adm.length = offs.length) : (labelled offs adm).count none = adm.count false := by
  induction offs generalizing adm with
  | nil =>
    rw [eq_nil_of_length_eq_zero h]
    rfl
  | cons off offs ih =>
    cases adm with
    | nil => cases h
    | cons a adm =>
      have hrest := ih (Nat.succ.inj h)
      have hcons : labelled (off :: offs) (a :: adm) =
          (if a then some (pcLabelValue off) else none) :: labelled offs adm := rfl
      rw [hcons]
      cases a with
      | true =>
        rw [if_pos rfl, count_cons_of_ne (Option.some_ne_none _), hrest, count_cons_of_ne (by decide)]
      | false => rw [if_neg Bool.false_ne_true, count_cons_self, hrest, count_cons_self]

theorem getElem?_labelled {i off : Nat} (hi : offs[i]? = some off) :
    (labelled offs adm)[i]? = adm[i]?.map fun a => if a then some (pcLabelValue off) else none := by
  unfold labelled List.zip
  rw [getElem?_map, getElem?_zipWith, hi]
  cases adm[i]? <;> rfl

/-! ## Any number of projections -/

def allOffsets (calls : List ProjectionCall) : List Nat := calls.flatMap ProjectionCall.offsets

/-- The `gpu_pc` labels of the PC samples of all calls. -/
def allLabels (calls : List ProjectionCall) (outs : List Projected) : List (Option (List UInt8)) :=
  (calls.zip outs).flatMap fun x => x.1.labels x.2

/-- The values of the label `gpu_pc`, of all samples of all calls. -/
def allValues (outs : List Projected) : List (List UInt8) := outs.flatMap fun out => out.1.filterMap gpuPC

/-- The call reports how many of its PC samples have no `gpu_pc`. -/
def Reported (call : ProjectionCall) (out : Projected) : Prop :=
  out.2.pcLabelsSuppressed = UInt64.ofNat ((call.labels out).count none)

theorem reported_of_run {call : ProjectionCall} {budget : PCLabelBudget} {r : Projected × PCLabelBudget}
    (h : call.run budget = some r) : Reported call r.1 := by
  obtain ⟨hshows, hstats⟩ := ProjectionCall.run_shows h
  have hlabels : call.labels r.1 = labelled call.offsets (budget.admitAll call.offsets).2 := hshows.labels
  have hafter : r.2 = (budget.admitAll call.offsets).1 := hshows.after
  unfold Reported
  rw [hstats, hlabels, hafter, PCLabelBudget.suppressed_admitAll,
    count_none_labelled (PCLabelBudget.length_admitAll ..), UInt64.add_comm, UInt64.add_sub_cancel]

/-- Whatever the calls, their PC samples show what the budget answers to the offsets one after the
other. -/
theorem projections_labels {budget b : PCLabelBudget} {calls : List ProjectionCall} {outs : List Projected}
    (h : projections budget calls = some (outs, b)) :
    b = (budget.admitAll (allOffsets calls)).1 ∧
      allLabels calls outs = labelled (allOffsets calls) (budget.admitAll (allOffsets calls)).2 ∧
      (∀ value ∈ allValues outs, some value ∈ allLabels calls outs) ∧
      List.Forall₂ Reported calls outs := by
  induction calls generalizing budget outs with
  | nil =>
    cases h
    exact ⟨rfl, rfl, fun _ hv => absurd hv not_mem_nil, .nil⟩
  | cons call calls ih =>
    obtain ⟨r, hr, h⟩ := Option.bind_eq_some_iff.mp h
    obtain ⟨⟨outs', b'⟩, hrest, h⟩ := Option.map_eq_some_iff.mp h
    cases h
    obtain ⟨hshows, -⟩ := ProjectionCall.run_shows hr
    obtain ⟨hb, hlabels, hvalues, hreported⟩ := ih hrest
    have hafter : r.2 = (budget.admitAll call.offsets).1 := hshows.after
    have hfirst : call.labels r.1 = labelled call.offsets (budget.admitAll call.offsets).2 := hshows.labels
    have hall : allLabels (call :: calls) (r.1 :: outs') = call.labels r.1 ++ allLabels calls outs' := rfl
    have hoffs : allOffsets (call :: calls) = call.offsets ++ allOffsets calls := rfl
    refine ⟨?_, ?_, fun value hvalue => ?_, .cons (reported_of_run hr) hreported⟩
    · rw [hoffs, PCLabelBudget.admitAll_append, ← hafter]
      exact hb
    · rw [hall, hoffs, hfirst, hlabels, PCLabelBudget.admitAll_append, ← hafter]
      exact (labelled_append (PCLabelBudget.length_admitAll ..)).symm
    · rw [hall]
      rcases mem_append.mp hvalue with hvalue | hvalue
      · obtain ⟨s, hs, hpc⟩ := mem_filterMap.mp hvalue
        refine mem_append_left _ ?_
        rw [hfirst, ← hpc]
        exact hshows.only s hs (hpc ▸ Option.some_ne_none _)
      · exact mem_append_right _ (hvalues value hvalue)

theorem value_seen {budget : PCLabelBudget} {value : List UInt8}
    (h : some value ∈ labelled offs (budget.admitAll offs).2) :
    value ∈ (budget.admitAll offs).1.seen.map pcLabelValue := by
  obtain ⟨x, hx, hvalue⟩ := mem_map.mp h
  split at hvalue
  · next hadm =>
      cases hvalue
      exact mem_map_of_mem (PCLabelBudget.mem_seen_of_admitAll hx hadm)
  · cases hvalue

/-- Over any number of projections with one budget: each PC sample has the label of its offset or none;
there are at most as many values as the ceiling; an offset that has had its label has it again; and
each call reports how many of its PC samples have none. -/
theorem pc_label_budget (max : Int) {calls : List ProjectionCall} {outs : List Projected} {b : PCLabelBudget}
    (h : projections (newPCLabelBudget max) calls = some (outs, b)) :
    List.Forall₂ (fun off l => l = none ∨ l = some (pcLabelValue off)) (allOffsets calls) (allLabels calls outs) ∧
      (allValues outs).dedup.length ≤ (newPCLabelBudget max).ceiling ∧
      (∀ (i j off : Nat) (value : List UInt8), i ≤ j →
        (allOffsets calls)[i]? = some off → (allOffsets calls)[j]? = some off →
        (allLabels calls outs)[i]? = some (some value) → (allLabels calls outs)[j]? = some (some value)) ∧
      List.Forall₂ Reported calls outs := by
  obtain ⟨-, hlabels, hvalues, hreported⟩ := projections_labels h
  rw [hlabels] at hvalues ⊢
  refine ⟨forall₂_labelled (PCLabelBudget.length_admitAll ..), ?_, fun i j off value hij hi hj hlabel => ?_, hreported⟩
  · have hsub : (allValues outs).dedup ⊆
        ((newPCLabelBudget max).admitAll (allOffsets calls)).1.seen.map pcLabelValue :=
      fun value hvalue => value_seen (hvalues value (mem_dedup.mp hvalue))
    have hlength : (allValues outs).dedup.length ≤ _ := (subperm_of_subset (nodup_dedup _) hsub).length_le
    rw [length_map] at hlength
    refine Nat.le_trans hlength ?_
    have hwithin := ((PCLabelBudget.within_new max).admitAll (allOffsets calls)).length
    rwa [PCLabelBudget.ceiling_admitAll] at hwithin
  · rw [getElem?_labelled hi] at hlabel
    rw [getElem?_labelled hj]
    obtain ⟨a, ha, hvalue⟩ := Option.map_eq_some_iff.mp hlabel
    cases a with
    | true =>
      rw [PCLabelBudget.admitAll_sticky hij hi hj ha, ← hvalue]
      rfl
    | false => cases hvalue

def twoOffsets : ExecutionView where
  exec := { kernelName := "k", startNs := 10, endNs := 30 }
  pcSamples := [⟨{ pcOffset := 16, count := 1 }, 0⟩, ⟨{ pcOffset := 32, count := 1 }, 1⟩]
  pcAttrib := .kernel

def projectTwoOffsets : ProjectionCall where
  omitCorrelation := true
  answers _ _ := { status := .noModule }
  snap := .ofExecutions [twoOffsets]

/-- Two calls, with a budget of one value. -/
theorem pc_label_budget_twoOffsets :
    ∃ outs b, projections (newPCLabelBudget 1) [projectTwoOffsets, projectTwoOffsets] = some (outs, b) ∧
      List.Forall₂ Reported [projectTwoOffsets, projectTwoOffsets] outs := by
  have hsome : (projections (newPCLabelBudget 1) [projectTwoOffsets, projectTwoOffsets]).isSome := by decide +kernel
  obtain ⟨⟨outs, b⟩, h⟩ := Option.isSome_iff_exists.mp hsome
  exact ⟨outs, b, h, (pc_label_budget 1 h).2.2.2⟩

end PerfAgent.Gpu
