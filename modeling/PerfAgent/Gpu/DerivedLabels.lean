import PerfAgent.Gpu.ViewSamples

/-!
# Tags and derived labels

The tags of a launch are the first labels of its execution, and the labels that the projection
derives are written over them.  A label that is neither set nor deleted keeps what a tag of that
name says.  `unsettled` lists the names that a view leaves alone.
-/

namespace PerfAgent.Gpu

open List

open Pprof (ascii ProfileSample)

def derivedLabels : List String :=
  ["gpu_pid", "gpu_queue", "gpu_device", "gpu_correlation", "gpu_join", "gpu_ambiguous", "gpu_graph_refused",
    "gpu_serialized", "gpu_sample_period"] ++ pcSampleReservedLabels

def unsettled (view : ExecutionView) (omitCorrelation : Bool) : List String :=
  (if labelPID view = 0 then ["gpu_pid"] else []) ++
  (if view.exec.queue.queueID = "" then ["gpu_queue"] else []) ++
  (if view.exec.queue.device.deviceID = "" then ["gpu_device"] else []) ++
  (if omitCorrelation ∨ view.exec.correlation.present then [] else ["gpu_correlation"]) ++
  (if view.ambiguous then [] else ["gpu_ambiguous"]) ++
  (if samplePeriod view = 0 then ["gpu_sample_period"] else [])

/-! ## Label maps as steps -/

abbrev LabelStep := String × Option (List UInt8)

def Labels.apply (l : Labels) (s : LabelStep) : Labels :=
  match s.2 with
  | some value => Labels.set l s.1 value
  | none => AssocMap.del l (ascii s.1)

theorem Labels.find?_apply (l : Labels) (s : LabelStep) (k : List UInt8) :
    (l.apply s).find? k = if k = ascii s.1 then s.2 else l.find? k := by
  unfold Labels.apply
  split
  · next value h => rw [h]; exact AssocMap.find?_put ..
  · next h => rw [h]; exact AssocMap.find?_del ..

theorem foldl_ite {α β : Type} (f : β → α → β) (c : Prop) [Decidable c] (a : α) (b : β) :
    (if c then [a] else []).foldl f b = if c then f b a else b := by
  split <;> rfl

theorem find?_foldl_apply_of_forall {steps : List LabelStep} {k : List UInt8} (h : ∀ s ∈ steps, ascii s.1 ≠ k)
    (l : Labels) : (steps.foldl Labels.apply l).find? k = l.find? k := by
  induction steps generalizing l with
  | nil => rfl
  | cons s steps ih =>
    obtain ⟨hs, hsteps⟩ := forall_mem_cons.mp h
    rw [foldl_cons, ih hsteps, Labels.find?_apply, if_neg (Ne.symm hs)]

theorem find?_foldl_apply_congr (steps : List LabelStep) {k : List UInt8} {l l' : Labels} (h : l.find? k = l'.find? k) :
    (steps.foldl Labels.apply l).find? k = (steps.foldl Labels.apply l').find? k := by
  induction steps generalizing l l' with
  | nil => exact h
  | cons s steps ih =>
    refine ih ?_
    rw [Labels.find?_apply, Labels.find?_apply, h]

theorem find?_foldl_apply_of_mem {steps : List LabelStep} {s : LabelStep} (h : s ∈ steps) (l l' : Labels) :
    (steps.foldl Labels.apply l).find? (ascii s.1) = (steps.foldl Labels.apply l').find? (ascii s.1) := by
  obtain ⟨before, after, rfl⟩ := append_of_mem h
  rw [foldl_append, foldl_append, foldl_cons, foldl_cons]
  refine find?_foldl_apply_congr after ?_
  rw [Labels.find?_apply, Labels.find?_apply, if_pos rfl, if_pos rfl]

def tagLabels (view : ExecutionView) : Labels :=
  (launchTags view).entries.foldl (fun l e => AssocMap.put l (utf8 e.1) (utf8 e.2)) ∅

def projectionSteps (view : ExecutionView) (omitCorrelation : Bool) : List LabelStep :=
  pcSampleReservedLabels.map (fun name => (name, none)) ++
  (if labelPID view ≠ 0 then [("gpu_pid", some (formatUint (labelPID view)))] else []) ++
  (if view.exec.queue.queueID ≠ "" then [("gpu_queue", some (utf8 view.exec.queue.queueID))] else []) ++
  (if view.exec.queue.device.deviceID ≠ "" then [("gpu_device", some (utf8 view.exec.queue.device.deviceID))]
    else []) ++
  (if omitCorrelation then [("gpu_correlation", none)] else []) ++
  (if omitCorrelation = false ∧ view.exec.correlation.present then
    [("gpu_correlation",
      some (utf8 view.exec.correlation.backend ++ ascii ":" ++ utf8 view.exec.correlation.value))] else []) ++
  [("gpu_join", some (ascii view.join.label))] ++
  (if view.ambiguous then [("gpu_ambiguous", some (ascii "true"))] else []) ++
  [("gpu_graph_refused", none)] ++
  (if view.graphRefused then [("gpu_graph_refused", some (ascii "true"))] else []) ++
  [("gpu_serialized", some (ascii view.serialized.label))] ++
  (if 0 < samplePeriod view then [("gpu_sample_period", some (formatUint (samplePeriod view)))] else [])

theorem projectionLabels_eq (view : ExecutionView) (omitCorrelation : Bool) : projectionLabels view omitCorrelation =
      (projectionSteps view omitCorrelation).foldl Labels.apply (tagLabels view) := by
  unfold projectionSteps
  simp only [foldl_append, foldl_ite, foldl_map, foldl_cons, foldl_nil]
  unfold projectionLabels tagLabels
  cases omitCorrelation with
  | true => rfl
  | false =>
    simp only [Bool.false_eq_true, if_false, true_and]
    rfl

/-- What is written over the labels of an execution for one of its PC samples. -/
def pcSteps (view : ExecutionView) (admitted : Bool) (s : GPUPCSample) (res : Resolution) : List LabelStep :=
  (if s.stallReason ≠ "" then [("gpu_stall", some (utf8 s.stallReason))] else []) ++
  (if admitted then [("gpu_pc", some (ascii "0x" ++ Pprof.hexOf (UInt64.ofNat s.pcOffset)))] else []) ++
  [("gpu_pc_attrib", some (ascii (projectionPCAttrib view)))] ++
  [("gpu_src_status", some (ascii res.status.text))] ++
  if res.status ≠ .resolved then []
  else
    (if srcFileBase (utf8 res.file) ≠ [] then [("gpu_src_file", some (srcFileBase (utf8 res.file)))] else []) ++
    (if res.function ≠ "" then [("gpu_src_func", some (utf8 res.function))] else []) ++
    [("gpu_src_line", some (formatUint res.line))]

theorem pcLabels_eq (view : ExecutionView) (common : Labels) (admitted : Bool) (s : GPUPCSample) (res : Resolution) :
    pcLabels view common admitted s res = (pcSteps view admitted s res).foldl Labels.apply common := by
  unfold pcSteps
  simp only [foldl_append, foldl_ite, foldl_cons, foldl_nil]
  unfold pcLabels setSourceLabels
  by_cases h : res.status = .resolved
  · simp only [if_neg (not_not_intro h), foldl_append, foldl_ite, foldl_cons, foldl_nil]
    rfl
  · simp only [if_pos h]
    rfl

theorem pcSteps_reserved {view : ExecutionView} {admitted : Bool} {s : GPUPCSample} {res : Resolution}
    {step : LabelStep} (h : step ∈ pcSteps view admitted s res) : step.1 ∈ pcSampleReservedLabels := by
  unfold pcSteps at h
  simp only [mem_append, mem_ite_nil_left, mem_ite_nil_right, mem_singleton] at h
  rcases h with (((⟨-, rfl⟩ | ⟨-, rfl⟩) | rfl) | rfl) | ⟨-, ((⟨-, rfl⟩ | ⟨-, rfl⟩) | rfl)⟩ <;>
  simp [pcSampleReservedLabels]

/-! ## Which names are settled -/

theorem unsettled_derived {view : ExecutionView} {omitCorrelation : Bool} {name : String}
    (h : name ∈ unsettled view omitCorrelation) : name ∈ derivedLabels := by
  unfold unsettled at h
  simp only [mem_append, mem_ite_nil_left, mem_ite_nil_right, mem_singleton] at h
  rcases h with ((((⟨-, rfl⟩ | ⟨-, rfl⟩) | ⟨-, rfl⟩) | ⟨-, rfl⟩) | ⟨-, rfl⟩) | ⟨-, rfl⟩ <;> decide

theorem projectionSteps_derived {view : ExecutionView} {omitCorrelation : Bool} {s : LabelStep}
    (h : s ∈ projectionSteps view omitCorrelation) : s.1 ∈ derivedLabels := by
  unfold projectionSteps at h
  simp only [mem_append, mem_ite_nil_right, mem_singleton] at h
  rcases h with ((((((((((hr | ⟨-, rfl⟩) | ⟨-, rfl⟩) | ⟨-, rfl⟩) | ⟨-, rfl⟩) | ⟨-, rfl⟩) | rfl) | ⟨-, rfl⟩) | rfl) |
    ⟨-, rfl⟩) | rfl) | ⟨-, rfl⟩
  · obtain ⟨name, hname, rfl⟩ := mem_map.mp hr
    exact mem_append_right _ hname
  all_goals simp [derivedLabels]

theorem unsettled_iff {view : ExecutionView} {omitCorrelation : Bool} {name : String} (h : name ∈ derivedLabels) :
    name ∈ unsettled view omitCorrelation ↔ ∀ s ∈ projectionSteps view omitCorrelation, s.1 ≠ name := by
  have hsteps : (∀ s ∈ projectionSteps view omitCorrelation, s.1 ≠ name) ↔
      name ∉ (projectionSteps view omitCorrelation).map Prod.fst := by
    simp only [mem_map, not_exists, not_and, ne_eq]
  have hite : ∀ (c : Prop) [Decidable c] (s : LabelStep),
      (if c then [s] else []).map Prod.fst = if c then [s.1] else [] := fun c _ s => by split <;> rfl
  rw [hsteps]
  simp only [unsettled, projectionSteps, map_append, hite, map_cons, map_nil, mem_append,
    mem_ite_nil_left, mem_ite_nil_right, mem_singleton]
  simp only [derivedLabels, pcSampleReservedLabels, cons_append, nil_append, mem_cons, not_mem_nil, or_false] at h
  rcases h with rfl | rfl | rfl | rfl | rfl | rfl | rfl | rfl | rfl | rfl | rfl | rfl | rfl | rfl | rfl | rfl <;>
  simp [pcSampleReservedLabels]
  exact .inl

/-! ## The bytes of a name -/

theorem toList_loop (bs : ByteArray) (i : Nat) (r : List UInt8) :
    ByteArray.toList.loop bs i r = r.reverse ++ bs.data.toList.drop i := by
  induction i, r using ByteArray.toList.loop.induct bs with
  | case1 i r h ih =>
    have hi : i < bs.data.toList.length := h
    rw [ByteArray.toList.loop, if_pos h, ih, reverse_cons, append_assoc, drop_eq_getElem_cons hi]
    have hget : bs.get! i = bs.data.toList[i] := getElem!_pos bs.data i h
    rw [hget]
    rfl
  | case2 i r h =>
    rw [ByteArray.toList.loop, if_neg h, drop_of_length_le (Nat.le_of_not_lt h), append_nil]

theorem utf8_injective : Function.Injective utf8 := by
  intro s t h
  have hloop : ∀ s : String, utf8 s = s.toByteArray.data.toList := fun s => toList_loop s.toByteArray 0 []
  rw [hloop, hloop] at h
  exact String.toByteArray_inj.mp (ByteArray.ext (Array.toList_inj.mp h))

theorem utf8_derived {name : String} (h : name ∈ derivedLabels) : utf8 name = ascii name := by
  have hall : ∀ name ∈ derivedLabels, utf8 name = ascii name := by decide +kernel
  exact hall name h

theorem ascii_derived {a b : String} (ha : a ∈ derivedLabels) (hb : b ∈ derivedLabels) (h : ascii a = ascii b) :
    a = b :=
  utf8_injective ((utf8_derived ha).trans (h.trans (utf8_derived hb).symm))

theorem find?_tagLabels {view : ExecutionView} {name : String} (h : name ∈ derivedLabels) :
    (tagLabels view).find? (ascii name) = ((launchTags view).find? name).map utf8 := by
  rw [← utf8_derived h]
  exact (AssocMap.find?_foldl_put (launchTags view).nodupKeys utf8_injective utf8 ∅ name).trans Option.or_none

/-! ## Views that differ in their tags -/

def ExecutionView.withTags (view : ExecutionView) (tags : AssocMap String String) : ExecutionView :=
  { view with
    launch := view.launch.map fun l => { l with launch := { l.launch with tags := tags } } }

variable (view : ExecutionView) (tags : AssocMap String String)

@[simp] theorem projectionPID_withTags : projectionPID (view.withTags tags) = projectionPID view := by
  unfold projectionPID ExecutionView.withTags
  cases view.launch <;> rfl

@[simp] theorem sampledStack_withTags : sampledStack (view.withTags tags) = sampledStack view := by
  unfold sampledStack ExecutionView.withTags
  cases view.launch <;> rfl

@[simp] theorem samplePeriod_withTags : samplePeriod (view.withTags tags) = samplePeriod view := by
  unfold samplePeriod
  rw [sampledStack_withTags]
  unfold ExecutionView.withTags
  cases view.launch <;> cases sampledStack view <;> rfl

@[simp] theorem labelPID_withTags : labelPID (view.withTags tags) = labelPID view := by
  unfold labelPID
  rw [projectionPID_withTags]
  rfl

@[simp] theorem projectionFrames_withTags : projectionFrames (view.withTags tags) = projectionFrames view := by
  unfold projectionFrames
  rw [sampledStack_withTags]
  rfl

@[simp] theorem projectionSteps_withTags (omitCorrelation : Bool) :
    projectionSteps (view.withTags tags) omitCorrelation = projectionSteps view omitCorrelation := by
  unfold projectionSteps
  rw [labelPID_withTags, samplePeriod_withTags]
  rfl

/-! ## What a view adds, but for its tags -/

/-- The value of a sample and what is written over the labels of its execution. -/
abbrev SampleShape := UInt64 × List LabelStep

def viewShape (answers : Nat → Nat → Resolution) (budget : PCLabelBudget) (v : ExecutionView × Nat) :
    Option (List SampleShape × PCLabelBudget) :=
  if v.1.pcSamples = [] then some ([(executionWeight v.1.exec, [])], budget)
  else
    (distributeExecutionWeight (executionWeight v.1.exec) (v.1.pcSamples.map Emission.sample)).map fun weights =>
      let r := budget.admitAll (viewOffsets v.1)
      (((pcItems answers v weights).zip r.2).map fun x => (x.1.2.2, pcSteps v.1 x.2 x.1.1 x.1.2.1), r.1)

def shaped (omitCorrelation : Bool) (v : ExecutionView × Nat) (x : SampleShape) : ProfileSample × Nat :=
  (baseSample v.1 (projectionFrames v.1)
    ((projectionSteps v.1 omitCorrelation ++ x.2).foldl Labels.apply (tagLabels v.1)) x.1, v.2)

theorem viewSamples_eq (omitCorrelation : Bool) (answers : Nat → Nat → Resolution) (budget : PCLabelBudget)
    (v : ExecutionView × Nat) :
    viewSamples omitCorrelation answers budget v =
      (viewShape answers budget v).map fun r => (r.1.map (shaped omitCorrelation v), r.2) := by
  unfold viewSamples viewShape
  split
  · simp only [Option.map_some, map_cons, map_nil, shaped, append_nil, projectionLabels_eq]
  · rw [Option.map_map]
    refine congrArg (fun f => Option.map f _) (funext fun weights => ?_)
    simp only [Function.comp_def, map_map]
    refine congrArg (·, _) (map_congr_left fun x _ => ?_)
    unfold pcSample shaped
    rw [pcLabels_eq, projectionLabels_eq, foldl_append]

theorem viewShape_withTags (answers : Nat → Nat → Resolution) (budget : PCLabelBudget) (i : Nat) :
    viewShape answers budget (view.withTags tags, i) = viewShape answers budget (view, i) := rfl

variable {answers : Nat → Nat → Resolution}

theorem viewShape_ne_nil {budget : PCLabelBudget} {v : ExecutionView × Nat} {r : List SampleShape × PCLabelBudget}
    (h : viewShape answers budget v = some r) : r.1 ≠ [] := by
  unfold viewShape at h
  split at h
  · cases h
    exact cons_ne_nil _ _
  · next hpcs =>
      obtain ⟨ws, hd, rfl⟩ := Option.map_eq_some_iff.mp h
      have hlen : ws.length = v.1.pcSamples.length := (length_distributeExecutionWeight hd).trans (length_map ..)
      refine ne_nil_of_length_pos ?_
      simp only [length_map, length_zip, length_pcItems hlen, PCLabelBudget.length_admitAll, viewOffsets, Nat.min_self]
      exact length_pos_of_ne_nil hpcs

theorem viewShape_reserved {budget : PCLabelBudget} {v : ExecutionView × Nat} {r : List SampleShape × PCLabelBudget}
    (h : viewShape answers budget v = some r) {x : SampleShape} (hx : x ∈ r.1) :
    ∀ s ∈ x.2, s.1 ∈ pcSampleReservedLabels := by
  unfold viewShape at h
  split at h
  · cases h
    cases mem_singleton.mp hx
    exact fun s hs => absurd hs not_mem_nil
  · obtain ⟨ws, -, rfl⟩ := Option.map_eq_some_iff.mp h
    obtain ⟨y, -, rfl⟩ := mem_map.mp hx
    exact fun s hs => pcSteps_reserved hs

/-! ## Projections that differ in their tags -/

/-- The samples have the same stack, value and process, and come from the same execution. -/
def SameSample (a b : ProfileSample × Nat) : Prop :=
  { a.1 with labels := ∅ } = { b.1 with labels := ∅ } ∧ a.2 = b.2

def SameDerived (a b : ProfileSample × Nat) : Prop :=
  ∀ name ∈ derivedLabels, a.1.labels.find? (ascii name) = b.1.labels.find? (ascii name)

def TagsAgree (omitCorrelation : Bool) (view view' : ExecutionView) : Prop :=
  ∀ name ∈ unsettled view omitCorrelation, (launchTags view).find? name = (launchTags view').find? name

variable {view tags}

theorem labels_shaped (omitCorrelation : Bool) (v : ExecutionView × Nat) (x : SampleShape) :
    (shaped omitCorrelation v x).1.labels =
      (projectionSteps v.1 omitCorrelation ++ x.2).foldl Labels.apply (tagLabels v.1) := by
  simp only [shaped, baseSample]

theorem sameSample_shaped (omitCorrelation : Bool) (i : Nat) (x : SampleShape) :
    SameSample (shaped omitCorrelation (view, i) x) (shaped omitCorrelation (view.withTags tags, i) x) := by
  unfold SameSample shaped baseSample
  rw [projectionPID_withTags, projectionFrames_withTags]
  exact ⟨rfl, rfl⟩

theorem sameDerived_shaped {omitCorrelation : Bool} {i : Nat} {x : SampleShape}
    (hx : ∀ s ∈ x.2, s.1 ∈ pcSampleReservedLabels) :
    SameDerived (shaped omitCorrelation (view, i) x) (shaped omitCorrelation (view.withTags tags, i) x) ↔
      TagsAgree omitCorrelation view (view.withTags tags) := by
  unfold SameDerived
  rw [labels_shaped, labels_shaped]
  dsimp only
  rw [projectionSteps_withTags]
  have huntouched : ∀ name ∈ unsettled view omitCorrelation,
      ∀ s ∈ projectionSteps view omitCorrelation ++ x.2, ascii s.1 ≠ ascii name := by
    intro name hname s hs heq
    have hsteps := (unsettled_iff (unsettled_derived hname)).mp hname
    rcases mem_append.mp hs with hs | hs
    · exact hsteps s hs (ascii_derived (projectionSteps_derived hs) (unsettled_derived hname) heq)
    · -- a name of a PC sample is deleted from the tags of every view
      have hreserved := ascii_derived (mem_append_right _ (hx s hs)) (unsettled_derived hname) heq
      refine hsteps (name, none) ?_ rfl
      unfold projectionSteps
      simp only [append_assoc]
      exact mem_append_left _ (mem_map.mpr ⟨name, hreserved ▸ hx s hs, rfl⟩)
  constructor
  · intro h name hname
    have hlookup := h name (unsettled_derived hname)
    rw [find?_foldl_apply_of_forall (huntouched name hname), find?_foldl_apply_of_forall (huntouched name hname),
      find?_tagLabels (unsettled_derived hname), find?_tagLabels (unsettled_derived hname)] at hlookup
    exact Option.map_injective utf8_injective hlookup
  · intro h name hname
    by_cases hun : name ∈ unsettled view omitCorrelation
    · refine find?_foldl_apply_congr _ ?_
      rw [find?_tagLabels hname, find?_tagLabels hname, h name hun]
    · rw [unsettled_iff hname] at hun
      push Not at hun
      obtain ⟨s, hs, rfl⟩ := hun
      exact @find?_foldl_apply_of_mem (projectionSteps view omitCorrelation ++ x.2) s
        (mem_append_left _ hs) (tagLabels view) (tagLabels (view.withTags tags))

theorem forall₂_append_iff {α β : Type} {R : α → β → Prop} {l₁ l₂ : List α} {l₁' l₂' : List β}
    (h : l₁.length = l₁'.length) :
    List.Forall₂ R (l₁ ++ l₂) (l₁' ++ l₂') ↔ List.Forall₂ R l₁ l₁' ∧ List.Forall₂ R l₂ l₂' := by
  rw [forall₂_iff_zip, forall₂_iff_zip, forall₂_iff_zip, zip_append h, List.length_append, List.length_append, h]
  simp only [mem_append, Nat.add_left_cancel_iff, true_and]
  constructor
  · rintro ⟨hlen, hall⟩
    exact ⟨fun hm => hall (.inl hm), hlen, fun hm => hall (.inr hm)⟩
  · rintro ⟨h₁, hlen, h₂⟩
    exact ⟨hlen, fun hm => hm.elim h₁ h₂⟩

theorem forall₂_shaped {R : ProfileSample × Nat → ProfileSample × Nat → Prop} {omitCorrelation : Bool}
    {v v' : ExecutionView × Nat} {xs : List SampleShape} :
    List.Forall₂ R (xs.map (shaped omitCorrelation v)) (xs.map (shaped omitCorrelation v')) ↔
      ∀ x ∈ xs, R (shaped omitCorrelation v x) (shaped omitCorrelation v' x) := by
  rw [forall₂_map_left_iff, forall₂_map_right_iff, forall₂_same]

/-- Two outcomes of a projection, as far as the tags leave them alike. -/
def AlikeButTags (out out' : Option (List (ProfileSample × Nat) × PCLabelBudget)) (agree : Prop) : Prop :=
  (out = none ∧ out' = none) ∨ ∃ r r', out = some r ∧ out' = some r' ∧ r.2 = r'.2 ∧ List.Forall₂ SameSample r.1 r'.1 ∧
      (List.Forall₂ SameDerived r.1 r'.1 ↔ agree)

theorem viewSamples_withTags (omitCorrelation : Bool) (answers : Nat → Nat → Resolution) (budget : PCLabelBudget)
    (view : ExecutionView) (tags : AssocMap String String) (i : Nat) :
    AlikeButTags (viewSamples omitCorrelation answers budget (view, i))
      (viewSamples omitCorrelation answers budget (view.withTags tags, i))
      (TagsAgree omitCorrelation view (view.withTags tags)) := by
  rw [viewSamples_eq, viewSamples_eq, viewShape_withTags]
  cases hshape : viewShape answers budget (view, i) with
  | none => exact .inl ⟨rfl, rfl⟩
  | some r =>
    refine .inr ⟨_, _, rfl, rfl, rfl, ?_, ?_⟩
    · exact forall₂_shaped.mpr fun x _ => sameSample_shaped omitCorrelation i x
    · rw [forall₂_shaped]
      obtain ⟨x, hx⟩ := exists_mem_of_ne_nil _ (viewShape_ne_nil hshape)
      have hall := fun y (hy : y ∈ r.1) => @sameDerived_shaped view tags omitCorrelation i y
        (viewShape_reserved hshape hy)
      exact ⟨fun h => (hall x hx).mp (h x hx), fun h y hy => (hall y hy).mpr h⟩

def SameButTags (view view' : ExecutionView) : Prop := ∃ tags, view' = view.withTags tags

theorem viewsSamples_withTags (omitCorrelation : Bool) (answers : Nat → Nat → Resolution) (budget : PCLabelBudget)
    {vs vs' : List ExecutionView} (h : List.Forall₂ SameButTags vs vs') (i : Nat) :
    AlikeButTags (viewsSamples omitCorrelation answers budget (vs.zipIdx i))
      (viewsSamples omitCorrelation answers budget (vs'.zipIdx i))
      (List.Forall₂ (TagsAgree omitCorrelation) vs vs') := by
  induction h generalizing budget i with
  | nil => exact .inr ⟨_, _, rfl, rfl, rfl, .nil, ⟨fun _ => .nil, fun _ => .nil⟩⟩
  | @cons v v' vs vs' hv _ ih =>
    obtain ⟨tags, rfl⟩ := hv
    rw [zipIdx_cons, zipIdx_cons, viewsSamples, viewsSamples]
    rcases viewSamples_withTags omitCorrelation answers budget v tags i with
      ⟨hn, hn'⟩ | ⟨r, r', hr, hr', hbudget, hsame, hiff⟩
    · rw [hn, hn']
      exact .inl ⟨rfl, rfl⟩
    · rw [hr, hr', Option.bind_some, Option.bind_some, ← hbudget]
      rcases ih r.2 (i + 1) with ⟨hn, hn'⟩ | ⟨q, q', hq, hq', hbudget', hsame', hiff'⟩
      · rw [hn, hn']
        exact .inl ⟨rfl, rfl⟩
      · rw [hq, hq']
        have hlen := hsame.length_eq
        refine .inr ⟨_, _, rfl, rfl, hbudget', (forall₂_append_iff hlen).mpr ⟨hsame, hsame'⟩, ?_⟩
        rw [forall₂_append_iff hlen, forall₂_cons, hiff, hiff']

theorem projection_withTags (omitCorrelation : Bool) (answers : Nat → Nat → Resolution) (budget : PCLabelBudget)
    {snap snap' : Snapshot} (h : List.Forall₂ SameButTags snap.executions snap'.executions) :
    AlikeButTags (projectExecutionsWith omitCorrelation answers budget snap)
      (projectExecutionsWith omitCorrelation answers budget snap')
      (List.Forall₂ (TagsAgree omitCorrelation) snap.executions snap'.executions) := by
  rw [projectExecutionsWith_eq, projectExecutionsWith_eq]
  exact viewsSamples_withTags omitCorrelation answers budget h 0

def Snapshot.untagged (snap : Snapshot) : Snapshot :=
  { snap with executions := snap.executions.map fun view => view.withTags ∅ }

theorem sameButTags_untagged (snap : Snapshot) : List.Forall₂ SameButTags snap.executions snap.untagged.executions := by
  change List.Forall₂ SameButTags snap.executions (snap.executions.map _)
  rw [forall₂_map_right_iff, forall₂_same]
  exact fun _ _ => ⟨∅, rfl⟩

theorem find?_withTags_empty (view : ExecutionView) (name : String) :
    (launchTags (view.withTags ∅)).find? name = none := by
  unfold launchTags ExecutionView.withTags
  cases view.launch <;> rfl

theorem tagsAgree_untagged (omitCorrelation : Bool) (snap : Snapshot) :
    List.Forall₂ (TagsAgree omitCorrelation) snap.executions snap.untagged.executions ↔
      ∀ view ∈ snap.executions, ∀ name ∈ unsettled view omitCorrelation, (launchTags view).find? name = none := by
  change List.Forall₂ _ snap.executions (snap.executions.map _) ↔ _
  rw [forall₂_map_right_iff, forall₂_same]
  unfold TagsAgree
  simp only [find?_withTags_empty]

/-- Two projections of executions that differ in their tags have the same samples, and the same derived
labels exactly if the tags agree on the names that each view leaves alone.  So the tags supply no
derived label exactly if none of them has such a name. -/
theorem derived_labels_unforged (omitCorrelation : Bool) (answers : Nat → Nat → Resolution) (budget : PCLabelBudget)
    {snap snap' : Snapshot} (h : List.Forall₂ SameButTags snap.executions snap'.executions) :
    AlikeButTags (projectExecutionsWith omitCorrelation answers budget snap)
        (projectExecutionsWith omitCorrelation answers budget snap')
        (List.Forall₂ (TagsAgree omitCorrelation) snap.executions snap'.executions) ∧
      AlikeButTags (projectExecutionsWith omitCorrelation answers budget snap)
        (projectExecutionsWith omitCorrelation answers budget snap.untagged)
        (∀ view ∈ snap.executions, ∀ name ∈ unsettled view omitCorrelation, (launchTags view).find? name = none) := by
  refine ⟨projection_withTags omitCorrelation answers budget h, ?_⟩
  rw [← tagsAgree_untagged]
  exact projection_withTags omitCorrelation answers budget (sameButTags_untagged snap)

def Snapshot.ofExecutions (views : List ExecutionView) : Snapshot where
  executions := views
  events := []
  modules := []
  joinStats := {}
  launchCache := {}
  dropped := {}
  attributedPCSamples := 0
  pendingSamples := 0
  pendingCorrelations := 0
  pendingModuleSamples := 0
  pendingModuleGroups := 0
  pcJoin := {}
  pcSampling := .off
  samplingWindowsReceived := 0
  samplingWindowsHeld := 0
  samplingWindowsOpen := 0
  executionsSerialized := 0
  executionsNotSerialized := 0
  executionsSerializationUnknown := 0
  graphExecutions := 0
  graphExecProcesses := 0
  graphExecUnscoped := 0
  graphExecTrackingCapped := 0
  executionsGraphRefused := 0

/-- A launch with a tag, and its execution, which joined it exactly. -/
def taggedView (name value : String) : ExecutionView where
  launch := some
    { correlation := { backend := "cupti", value := "1", pid := 7 }
      kernelName := "k"
      launch := { pid := 7, tags := AssocMap.put ∅ name value } }
  exec :=
    { correlation := { backend := "cupti", value := "1", pid := 7 }
      kernelName := "k"
      startNs := 10
      endNs := 30 }
  join := .exact

/-- The two executions differ in one tag. -/
theorem derived_labels_unforged_oneExecution : AlikeButTags
        (projectExecutionsWith true (fun _ _ => { status := .noModule }) { ceiling := 1 }
          (.ofExecutions [taggedView "gpu_ambiguous" "true"]))
        (projectExecutionsWith true (fun _ _ => { status := .noModule }) { ceiling := 1 }
          (.ofExecutions [(taggedView "gpu_ambiguous" "true").withTags (AssocMap.put ∅ "team" "a")]))
        (List.Forall₂ (TagsAgree true) [taggedView "gpu_ambiguous" "true"]
          [(taggedView "gpu_ambiguous" "true").withTags (AssocMap.put ∅ "team" "a")]) :=
  (derived_labels_unforged true (fun _ _ => { status := .noModule }) { ceiling := 1 }
    (List.Forall₂.cons ⟨AssocMap.put ∅ "team" "a", rfl⟩ .nil)).1

/-- An execution that is not ambiguous is labelled so by a tag of its launch. -/
theorem not_derived_labels_unforged :
    ¬ ∀ (omitCorrelation : Bool) (answers : Nat → Nat → Resolution) (budget : PCLabelBudget) (snap snap' : Snapshot),
      List.Forall₂ SameButTags snap.executions snap'.executions → ∀ r r',
      projectExecutionsWith omitCorrelation answers budget snap = some r →
      projectExecutionsWith omitCorrelation answers budget snap' = some r' → List.Forall₂ SameDerived r.1 r'.1 := by
  intro hall
  have hsame := sameButTags_untagged (.ofExecutions [taggedView "gpu_ambiguous" "true"])
  rcases projection_withTags true (fun _ _ => { status := .noModule }) { ceiling := 1 } hsame with
    ⟨hnone, -⟩ | ⟨r, r', hr, hr', -, -, hiff⟩
  · rw [projectExecutionsWith_eq] at hnone
    cases hnone
  · have hagree := hiff.mp (hall _ _ _ _ _ hsame r r' hr hr')
    have hname := (tagsAgree_untagged true _).mp hagree _ (mem_singleton_self _) "gpu_ambiguous"
      (by decide +kernel)
    revert hname
    decide +kernel

end PerfAgent.Gpu
