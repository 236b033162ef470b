import PerfAgent.Gpu.ProjectionMemo
import PerfAgent.Gpu.Shares

/-!
# The samples of each execution

A projection without the memo adds to its samples what `viewSamples` says of each execution, and
hands on nothing but the budget.
-/

namespace PerfAgent.Gpu

open List

open Pprof (ascii ProfileSample)

/-! ## The budget -/

def PCLabelBudget.admitAll (b : PCLabelBudget) : List Nat → PCLabelBudget × List Bool
  | [] => (b, [])
  | off :: offs =>
    let (b, admitted) := b.admits off
    let (b, rest) := b.admitAll offs
    (b, admitted :: rest)

@[simp] theorem PCLabelBudget.admitAll_nil (b : PCLabelBudget) : b.admitAll [] = (b, []) := rfl

@[simp] theorem PCLabelBudget.admitAll_cons (b : PCLabelBudget) (off : Nat) (offs : List Nat) :
    b.admitAll (off :: offs) =
      (((b.admits off).1.admitAll offs).1, (b.admits off).2 :: ((b.admits off).1.admitAll offs).2) := rfl

@[simp] theorem PCLabelBudget.length_admitAll (b : PCLabelBudget) (offs : List Nat) :
    (b.admitAll offs).2.length = offs.length := by
  induction offs generalizing b with
  | nil => rfl
  | cons off offs ih => simp [ih]

theorem PCLabelBudget.admitAll_append (b : PCLabelBudget) (offs offs' : List Nat) : b.admitAll (offs ++ offs') =
      (((b.admitAll offs).1.admitAll offs').1, (b.admitAll offs).2 ++ ((b.admitAll offs).1.admitAll offs').2) := by
  induction offs generalizing b with
  | nil => rfl
  | cons off offs ih => simp [ih]

/-! ## One view -/

def pcLabels (view : ExecutionView) (common : Labels) (admitted : Bool) (s : GPUPCSample) (res : Resolution) : Labels :=
  let l := if s.stallReason ≠ "" then Labels.set common "gpu_stall" (utf8 s.stallReason) else common
  let l :=
    if admitted then Labels.set l "gpu_pc" (ascii "0x" ++ Pprof.hexOf (UInt64.ofNat s.pcOffset)) else l
  let l := Labels.set l "gpu_pc_attrib" (ascii (projectionPCAttrib view))
  setSourceLabels l res

/-- A PC sample, with the answer of the module store, its share and whether its offset was admitted. -/
abbrev PCItem := (GPUPCSample × Resolution × UInt64) × Bool

def pcSample (viewIndex : Nat) (view : ExecutionView) (omitCorrelation : Bool) (x : PCItem) : ProfileSample × Nat :=
  (baseSample view (projectionFrames view)
    (pcLabels view (projectionLabels view omitCorrelation) x.2 x.1.1 x.1.2.1) x.1.2.2, viewIndex)

/-- The PC samples of a view with what the module store and the weights say of them. -/
def pcItems (answers : Nat → Nat → Resolution) (v : ExecutionView × Nat) (weights : List UInt64) :
    List (GPUPCSample × Resolution × UInt64) :=
  let pcs := v.1.pcSamples.map Emission.sample
  pcs.zip (((List.range pcs.length).map (answers v.2)).zip weights)

def viewOffsets (view : ExecutionView) : List Nat := view.pcSamples.map fun e => e.sample.pcOffset

def viewSamples (omitCorrelation : Bool) (answers : Nat → Nat → Resolution) (budget : PCLabelBudget)
    (v : ExecutionView × Nat) : Option (List (ProfileSample × Nat) × PCLabelBudget) :=
  if v.1.pcSamples = [] then
    some ([(baseSample v.1 (projectionFrames v.1) (projectionLabels v.1 omitCorrelation)
      (executionWeight v.1.exec), v.2)], budget)
  else
    (distributeExecutionWeight (executionWeight v.1.exec) (v.1.pcSamples.map Emission.sample)).map fun weights =>
      let r := budget.admitAll (viewOffsets v.1)
      (((pcItems answers v weights).zip r.2).map (pcSample v.2 v.1 omitCorrelation), r.1)

def viewsSamples (omitCorrelation : Bool) (answers : Nat → Nat → Resolution) (budget : PCLabelBudget) :
    List (ExecutionView × Nat) → Option (List (ProfileSample × Nat) × PCLabelBudget)
  | [] => some ([], budget)
  | v :: vs =>
    (viewSamples omitCorrelation answers budget v).bind fun r =>
      (viewsSamples omitCorrelation answers r.2 vs).map fun r' => (r.1 ++ r'.1, r'.2)

/-! ## The projection adds the samples of its views -/

theorem foldl_addPCSample_eq (i : Nat) (view : ExecutionView) (omitCorrelation : Bool) (p : Projection)
    (items : List (GPUPCSample × Resolution × UInt64)) :
    items.foldl (Projection.addPCSample i view (projectionFrames view) (projectionLabels view omitCorrelation)) p =
      { p with
        budget := (p.budget.admitAll (items.map fun x => x.1.pcOffset)).1
        samples := p.samples ++ (items.zip (p.budget.admitAll (items.map fun x => x.1.pcOffset)).2).map
            (pcSample i view omitCorrelation) } := by
  induction items generalizing p with
  | nil => simp
  | cons x items ih =>
    rw [foldl_cons, ih]
    simp only [map_cons, PCLabelBudget.admitAll_cons, zip_cons_cons, Projection.addPCSample, append_assoc]
    rfl

variable {answers : Nat → Nat → Resolution} {ws : List UInt64}

theorem length_pcItems {v : ExecutionView × Nat} (h : ws.length = v.1.pcSamples.length) :
    (pcItems answers v ws).length = v.1.pcSamples.length := by
  simp [pcItems, h]

theorem map_pcOffset_pcItems {v : ExecutionView × Nat} (h : ws.length = v.1.pcSamples.length) :
    (pcItems answers v ws).map (fun x => x.1.pcOffset) = viewOffsets v.1 := by
  have hlen : (v.1.pcSamples.map Emission.sample).length ≤
      (((List.range (v.1.pcSamples.map Emission.sample).length).map (answers v.2)).zip ws).length := by
    simp [h]
  unfold pcItems viewOffsets
  dsimp only
  rw [← Function.comp_def GPUPCSample.pcOffset Prod.fst, ← map_map, map_fst_zip hlen, map_map]
  rfl

theorem addView_plain {p : Projection} (hp : p.memo = none) (omitCorrelation : Bool)
    (answers : Nat → Nat → Resolution) (v : ExecutionView × Nat) :
    p.addView omitCorrelation answers v = (viewSamples omitCorrelation answers p.budget v).map fun r =>
        { p with budget := r.2, samples := p.samples ++ r.1 } := by
  unfold Projection.addView viewSamples
  rw [hp]
  simp only [ProjectionMemo.frames, ProjectionMemo.labels]
  split
  · rfl
  · rw [Option.map_map]
    cases hd : distributeExecutionWeight (executionWeight v.1.exec) (v.1.pcSamples.map Emission.sample) with
    | none => rfl
    | some ws =>
      have hlen : ws.length = v.1.pcSamples.length := (length_distributeExecutionWeight hd).trans (length_map ..)
      have hfold := foldl_addPCSample_eq v.2 v.1 omitCorrelation { p with memo := none } (pcItems answers v ws)
      rw [map_pcOffset_pcItems hlen] at hfold
      exact congrArg some hfold

theorem foldlM_addView_plain {p : Projection} (hp : p.memo = none) (omitCorrelation : Bool)
    (answers : Nat → Nat → Resolution) (vs : List (ExecutionView × Nat)) :
    vs.foldlM (Projection.addView omitCorrelation answers) p =
      (viewsSamples omitCorrelation answers p.budget vs).map fun r =>
        { p with budget := r.2, samples := p.samples ++ r.1 } := by
  induction vs generalizing p with
  | nil =>
    rw [foldlM_nil, viewsSamples, Option.map_some, append_nil]
    rfl
  | cons v vs ih =>
    rw [foldlM_cons, addView_plain hp, viewsSamples]
    cases viewSamples omitCorrelation answers p.budget v with
    | none => rfl
    | some r =>
      refine (@ih { p with budget := r.2, samples := p.samples ++ r.1 } hp).trans ?_
      simp only [Option.bind_some, Option.map_map, Function.comp_def, append_assoc]

theorem projectExecutionsWith_eq (omitCorrelation : Bool) (answers : Nat → Nat → Resolution) (budget : PCLabelBudget)
    (snap : Snapshot) :
    projectExecutionsWith omitCorrelation answers budget snap =
      viewsSamples omitCorrelation answers budget snap.executions.zipIdx := by
  have hplain : projectExecutionsPlain omitCorrelation answers budget snap =
      viewsSamples omitCorrelation answers budget snap.executions.zipIdx := by
    unfold projectExecutionsPlain
    rw [foldlM_addView_plain rfl, Option.map_map]
    exact congrFun Option.map_id _
  cases omitCorrelation with
  | false => exact hplain
  | true => exact (memoised_projection answers budget snap).trans hplain

end PerfAgent.Gpu
