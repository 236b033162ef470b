import Mathlib.Algebra.Order.BigOperators.Group.List
import Mathlib.Algebra.Order.Ring.Int
import Mathlib.Data.List.Induction
import PerfAgent.Pprof.Frames

/-!
# Folding samples into stacks

The loop of `Fold` in `internal/foldedstacks/fold.go` that adds up the samples of one call path.  What
the loop gets from `framesOf` and `matchesInexact` comes with a sample, and `collapseVendorRuns` is a
parameter.
-/

namespace PerfAgent.Flamegraph

open List

open Pprof (ascii)

abbrev Name := List UInt8

/-- `Stack`. -/
structure Stack where
  frames : List Name
  modules : List Name
  collapsed : List Bool
  value : Int64
  inexact : Int64
deriving DecidableEq

/-- `Result`, as far as the tree is concerned. -/
structure Result where
  allStacks : List Stack
  total : Int64
  inexactTotal : Int64
deriving DecidableEq

def unknownFrame : Name := ascii "[unknown]"

/-- What the loop reads of a sample.  There is no value if the sample has fewer than the profile. -/
structure Sample where
  value : Option Int64
  frames : List Name
  mods : List Name
  inexact : Bool

inductive FoldError where
  | shortSample
  | negativeValue
deriving DecidableEq

/-- `strings.Join(frames, "\x00")`. -/
def joinFrames (frames : List Name) : Name := List.intercalate [0] frames

/-- The stacks of `agg`, in the order in which they were made. -/
abbrev Agg := List (Name × Stack)

def Stack.add (st : Stack) (v : Int64) (inexact : Bool) : Stack :=
  { st with value := st.value + v, inexact := if inexact then st.inexact + v else st.inexact }

variable (l : List Int64)

/-- `agg[key]`, made if it is not there, with the sample added. -/
def Agg.add (frames mods : List Name) (collapsed : List Bool) (v : Int64) (inexact : Bool) : Agg → Agg
  | [] =>
    let st : Stack := { frames := frames, modules := mods, collapsed := collapsed, value := 0, inexact := 0 }
    [(joinFrames frames, st.add v inexact)]
  | e :: agg =>
    if e.1 = joinFrames frames then (e.1, e.2.add v inexact) :: agg
    else e :: Agg.add frames mods collapsed v inexact agg

section Fold

variable (collapse : List Name → List Name → List Name × List Name × List Bool)

def foldSample (agg : Agg) (s : Sample) : Except FoldError Agg :=
  match s.value with
  | none => .error .shortSample
  | some v =>
    if v < 0 then .error .negativeValue
    else if v = 0 then .ok agg
    else
      let (frames, mods) := if s.frames.length = 0 then ([unknownFrame], [[]]) else (s.frames, s.mods)
      let (frames, mods, collapsed) := collapse frames mods
      .ok (Agg.add frames mods collapsed v s.inexact agg)

/-- A sum of `int64`. -/
def sum64 : Int64 := l.foldl (· + ·) 0

def fold (samples : List Sample) : Except FoldError Result := do
  let agg ← samples.foldlM (foldSample collapse) []
  let folded := agg.map Prod.snd
  return {
    allStacks := folded.mergeSort fun a b => decide (joinFrames a.frames ≤ joinFrames b.frames)
    total := sum64 (folded.map Stack.value)
    inexactTotal := sum64 (folded.map Stack.inexact) }

end Fold

/-! ## Sums -/

theorem sum64_append (v : Int64) : sum64 (l ++ [v]) = sum64 l + v := foldl_append

theorem toInt_add_of_lt {a b : Int64} (ha : 0 ≤ a.toInt) (hb : 0 ≤ b.toInt) (h : a.toInt + b.toInt < 2 ^ 63) :
    (a + b).toInt = a.toInt + b.toInt := by
  rw [Int64.toInt_add]
  apply Int.bmod_eq_of_le
  · omega
  · omega

theorem toInt_sum64 {l : List Int64} (hl : ∀ v ∈ l, 0 ≤ v.toInt) (h : (l.map Int64.toInt).sum < 2 ^ 63) :
    (sum64 l).toInt = (l.map Int64.toInt).sum := by
  induction l using List.reverseRecOn with
  | nil => rfl
  | append_singleton l v ih =>
    have hl' : ∀ u ∈ l, 0 ≤ u.toInt := fun u hu => hl u (mem_append_left _ hu)
    have hv := hl v (mem_append_right _ mem_cons_self)
    have hnonneg : 0 ≤ (l.map Int64.toInt).sum := sum_nonneg fun x hx => by
      obtain ⟨u, hu, rfl⟩ := mem_map.mp hx
      exact hl' u hu
    rw [map_append, sum_append, map_singleton, sum_singleton] at h ⊢
    have ih := ih hl' (by omega)
    rw [sum64_append, toInt_add_of_lt (by omega) hv (by omega), ih]

/-! ## Folded results -/

structure Stack.Measured (st : Stack) : Prop where
  positive : 0 < st.value.toInt
  inexact_nonneg : 0 ≤ st.inexact.toInt
  inexact_le : st.inexact.toInt ≤ st.value.toInt

/-- A result that the samples of a profile fold into, with a total that fits. -/
structure Folded (res : Result) : Prop where
  measured : ∀ st ∈ res.allStacks, st.Measured
  total : res.total.toInt = (res.allStacks.map fun st => st.value.toInt).sum
  fits : (res.allStacks.map fun st => st.value.toInt).sum < 2 ^ 63

/-- The stacks of `agg` add up to `n`. -/
structure Agg.Holds (agg : Agg) (n : Int) : Prop where
  measured : ∀ e ∈ agg, e.2.Measured
  sum : (agg.map fun e => e.2.value.toInt).sum = n

section Add

variable {agg : Agg} {n : Int} {frames mods : List Name} {collapsed : List Bool} {v : Int64} {inexact : Bool}

theorem Stack.Measured.add {st : Stack} (h : st.Measured) (inexact : Bool) (hv : 0 < v.toInt)
    (hfit : st.value.toInt + v.toInt < 2 ^ 63) :
    (st.add v inexact).Measured ∧ (st.add v inexact).value.toInt = st.value.toInt + v.toInt := by
  have hpos := h.positive
  have hnonneg := h.inexact_nonneg
  have hle := h.inexact_le
  have hvalue : (st.value + v).toInt = st.value.toInt + v.toInt := toInt_add_of_lt (by omega) (by omega) hfit
  refine ⟨⟨?_, ?_, ?_⟩, hvalue⟩
  · show 0 < (st.value + v).toInt
    omega
  · unfold Stack.add
    cases inexact with
    | true =>
      show 0 ≤ (st.inexact + v).toInt
      rw [toInt_add_of_lt hnonneg (by omega) (by omega)]
      omega
    | false => exact hnonneg
  · unfold Stack.add
    cases inexact with
    | true =>
      show (st.inexact + v).toInt ≤ (st.value + v).toInt
      rw [toInt_add_of_lt hnonneg (by omega) (by omega)]
      omega
    | false =>
      show st.inexact.toInt ≤ (st.value + v).toInt
      omega

theorem Stack.measured_first (hv : 0 < v.toInt) :
    (({ frames := frames, modules := mods, collapsed := collapsed, value := 0, inexact := 0 } : Stack).add v
      inexact).Measured := by
  have hvalue : (0 + v : Int64) = v := Int64.zero_add v
  refine ⟨?_, ?_, ?_⟩
  · show 0 < (0 + v : Int64).toInt
    rw [hvalue]
    exact hv
  · cases inexact with
    | true =>
      show 0 ≤ (0 + v : Int64).toInt
      rw [hvalue]
      omega
    | false => exact Int.le_refl 0
  · cases inexact with
    | true => exact Int.le_refl _
    | false =>
      show (0 : Int) ≤ (0 + v : Int64).toInt
      rw [hvalue]
      omega

theorem Agg.Holds.nonneg (h : agg.Holds n) : 0 ≤ n := by
  rw [← h.sum]
  apply sum_nonneg
  intro x hx
  obtain ⟨e, he, rfl⟩ := mem_map.mp hx
  have := (h.measured e he).positive
  omega

theorem Agg.Holds.add (h : agg.Holds n) (hv : 0 < v.toInt) (hfit : n + v.toInt < 2 ^ 63) :
    (Agg.add frames mods collapsed v inexact agg).Holds (n + v.toInt) := by
  induction agg generalizing n with
  | nil =>
    have hn : n = 0 := h.sum.symm
    have hvalue : (0 + v : Int64) = v := Int64.zero_add v
    constructor
    · intro e he
      rw [Agg.add, mem_singleton] at he
      rw [he]
      exact Stack.measured_first hv
    · show (0 + v : Int64).toInt + 0 = n + v.toInt
      rw [hvalue, hn, Int.zero_add, Int.add_zero]
  | cons e agg ih =>
    have hfirst := h.measured e mem_cons_self
    have hrest : Agg.Holds agg (n - e.2.value.toInt) := by
      refine ⟨fun e' he' => h.measured e' (mem_cons_of_mem _ he'), ?_⟩
      have hsum := h.sum
      rw [map_cons, sum_cons] at hsum
      omega
    have hnonneg := hrest.nonneg
    have hpos := hfirst.positive
    rw [Agg.add]
    split
    · obtain ⟨hadded, hvalue⟩ := hfirst.add inexact hv (by omega)
      constructor
      · exact forall_mem_cons.mpr ⟨hadded, hrest.measured⟩
      · rw [map_cons, sum_cons, hvalue, hrest.sum]
        omega
    · have ih := ih hrest (by omega)
      constructor
      · exact forall_mem_cons.mpr ⟨hfirst, ih.measured⟩
      · rw [map_cons, sum_cons, ih.sum]
        omega

end Add

def Sample.weight (s : Sample) : Int :=
  match s.value with
  | some v => v.toInt
  | none => 0

variable {collapse : List Name → List Name → List Name × List Name × List Bool}

theorem weight_nonneg {agg agg' : Agg} {s : Sample} (h : foldSample collapse agg s = .ok agg') : 0 ≤ s.weight := by
  unfold foldSample at h
  unfold Sample.weight
  cases hvalue : s.value with
  | none => exact Int.le_refl 0
  | some v =>
    rw [hvalue] at h
    dsimp only at h ⊢
    split at h
    · cases h
    · next hnonneg =>
      have hzero : (0 : Int64).toInt = 0 := rfl
      rw [Int64.lt_iff_toInt_lt, hzero] at hnonneg
      omega

theorem foldSample_holds {agg agg' : Agg} {n : Int} {s : Sample} (hagg : agg.Holds n)
    (h : foldSample collapse agg s = .ok agg') (hfit : n + s.weight < 2 ^ 63) : agg'.Holds (n + s.weight) := by
  have hnonneg := weight_nonneg h
  unfold foldSample at h
  unfold Sample.weight at hfit hnonneg ⊢
  cases hvalue : s.value with
  | none =>
    rw [hvalue] at h
    cases h
  | some v =>
    rw [hvalue] at h hfit hnonneg
    dsimp only at h hfit hnonneg ⊢
    have hzero : (0 : Int64).toInt = 0 := rfl
    split at h
    · cases h
    · split at h
      · next hv =>
        cases h
        rw [hv, hzero, Int.add_zero]
        exact hagg
      · next hne =>
        have hpos : 0 < v.toInt := by
          have hne' : v.toInt ≠ 0 := fun h0 => hne (Int64.toInt_inj.mp h0)
          omega
        cases h
        exact hagg.add hpos hfit

theorem weights_nonneg {samples : List Sample} {agg agg' : Agg}
    (h : samples.foldlM (foldSample collapse) agg = .ok agg') : 0 ≤ (samples.map Sample.weight).sum := by
  induction samples generalizing agg with
  | nil => exact Int.le_refl 0
  | cons s samples ih =>
    rw [foldlM_cons] at h
    cases hstep : foldSample collapse agg s with
    | error e =>
      rw [hstep] at h
      cases h
    | ok agg₁ =>
      rw [hstep] at h
      have hfirst := weight_nonneg hstep
      have hrest := ih h
      rw [map_cons, sum_cons]
      omega

theorem foldlM_foldSample_holds {samples : List Sample} {agg agg' : Agg} {n : Int} (hagg : agg.Holds n)
    (h : samples.foldlM (foldSample collapse) agg = .ok agg') (hfit : n + (samples.map Sample.weight).sum < 2 ^ 63) :
    agg'.Holds (n + (samples.map Sample.weight).sum) := by
  induction samples generalizing agg n with
  | nil =>
    cases h
    rw [map_nil, sum_nil, Int.add_zero]
    exact hagg
  | cons s samples ih =>
    rw [foldlM_cons] at h
    cases hstep : foldSample collapse agg s with
    | error e =>
      rw [hstep] at h
      cases h
    | ok agg₁ =>
      rw [hstep] at h
      have hrest := weights_nonneg h
      rw [map_cons, sum_cons, ← Int.add_assoc] at hfit ⊢
      exact ih (foldSample_holds hagg hstep (by omega)) h hfit

theorem folded_fold {samples : List Sample} {res : Result} (h : fold collapse samples = .ok res)
    (hfit : (samples.map Sample.weight).sum < 2 ^ 63) :
    Folded res ∧ res.total.toInt = (samples.map Sample.weight).sum := by
  unfold fold at h
  cases hagg : samples.foldlM (foldSample collapse) [] with
  | error e =>
    rw [hagg] at h
    cases h
  | ok agg =>
    rw [hagg] at h
    cases h
    have hempty : Agg.Holds [] 0 := ⟨fun _ he => absurd he not_mem_nil, rfl⟩
    obtain ⟨hmeasured, hsum⟩ := foldlM_foldSample_holds hempty hagg (by omega)
    rw [Int.zero_add] at hsum
    have hall : ∀ st ∈ agg.map Prod.snd, st.Measured := by
      intro st hst
      obtain ⟨e, he, rfl⟩ := mem_map.mp hst
      exact hmeasured e he
    have hvalues : ((agg.map Prod.snd).map fun st => st.value.toInt).sum = (samples.map Sample.weight).sum := by
      rw [map_map]
      exact hsum
    have htotal : (sum64 ((agg.map Prod.snd).map Stack.value)).toInt = (samples.map Sample.weight).sum := by
      have hmap : ((agg.map Prod.snd).map Stack.value).map Int64.toInt =
          (agg.map Prod.snd).map fun st => st.value.toInt := map_map
      rw [toInt_sum64, hmap, hvalues]
      · intro v hv
        obtain ⟨st, hst, rfl⟩ := mem_map.mp hv
        have := (hall st hst).positive
        omega
      · rw [hmap, hvalues]
        exact hfit
    have hperm := mergeSort_perm (agg.map Prod.snd) fun a b => decide (joinFrames a.frames ≤ joinFrames b.frames)
    have hsorted := (hperm.map fun st => st.value.toInt).sum_eq
    refine ⟨⟨?_, ?_, ?_⟩, htotal⟩
    · exact fun st hst => hall st (hperm.mem_iff.mp hst)
    · exact htotal.trans (hvalues.symm.trans hsorted.symm)
    · dsimp only
      rw [hsorted, hvalues]
      exact hfit

end PerfAgent.Flamegraph
