import PerfAgent.Flamegraph.Tree

/-!
# What a node of the graph shows

`Fold` and `buildTree` together: where no name has the separator of the keys in it, the value of a node is that of the
samples whose stacks lead through it.
-/

namespace PerfAgent.Flamegraph

open List

def Node.measureAt (f : NodeInfo → Int64) (n : Node) (p : List Name) : Int :=
  (n.follow p).elim 0 fun m => (f m.info).toInt

theorem measureAt_buildTree {res : Result} (h : Folded res) {f : NodeInfo → Int64} {g : Stack → Int64} {p : List Name}
    (hat : ∀ {m}, (buildTree res).1.At p m → (f m.info).toInt = weight g (along p res.allStacks)) :
    (buildTree res).1.measureAt f p = weight g (along p res.allStacks) := by
  unfold Node.measureAt
  cases hm : (buildTree res).1.follow p with
  | some m => exact hat ((distinct_buildTree h).at_iff.mpr hm)
  | none =>
    have hnot : ¬∃ m, (buildTree res).1.At p m := fun ⟨m, hm'⟩ => by
      rw [(distinct_buildTree h).at_iff, hm] at hm'
      cases hm'
    rw [paths_buildTree h, not_or, not_not] at hnot
    rw [hnot.2]
    rfl

variable (collapse : List Name → List Name → List Name × List Name × List Bool)

def foldedFrames (s : Sample) : List Name :=
  (if s.frames.length = 0 then collapse [unknownFrame] [[]] else collapse s.frames s.mods).1

structure Apart (frames : List Name) : Prop where
  ne_nil : frames ≠ []
  names : ∀ f ∈ frames, (0 : UInt8) ∉ f

theorem Apart.eq_of_joinFrames {fs gs : List Name} (hf : Apart fs) (hg : Apart gs) (h : joinFrames fs = joinFrames gs) :
    fs = gs := by
  rw [← splitOn_intercalate 0 hf.names hf.ne_nil, ← splitOn_intercalate 0 hg.names hg.ne_nil]
  exact congrArg (·.splitOn 0) h

def Agg.Keyed (agg : Agg) : Prop := ∀ e ∈ agg, e.1 = joinFrames e.2.frames ∧ Apart e.2.frames

/-- What the stacks of `agg` add up to along a path. -/
def Agg.sumAlong (agg : Agg) (p : List Name) : Int := weight Stack.value (along p (agg.map Prod.snd))

section Add

variable {agg : Agg} {n : Int} {frames mods : List Name} {collapsed : List Bool} {v : Int64} {inexact : Bool}

theorem sumAlong_cons (e : Name × Stack) (agg : Agg) (p : List Name) :
    Agg.sumAlong (e :: agg) p = (if p.isPrefixOf e.2.frames then e.2.value.toInt else 0) + agg.sumAlong p := by
  unfold Agg.sumAlong along
  rw [map_cons, filter_cons]
  split
  · exact weight_cons ..
  · exact (Int.zero_add _).symm

theorem Agg.Keyed.add (h : agg.Keyed) (hframes : Apart frames) : (Agg.add frames mods collapsed v inexact agg).Keyed := by
  induction agg with
  | nil => exact forall_mem_singleton.mpr ⟨rfl, hframes⟩
  | cons e agg ih =>
    obtain ⟨he, hagg⟩ := forall_mem_cons.mp h
    rw [Agg.add]
    split
    · exact forall_mem_cons.mpr ⟨he, hagg⟩
    · exact forall_mem_cons.mpr ⟨he, ih hagg⟩

theorem sumAlong_add (h : agg.Holds n) (hkeys : agg.Keyed) (hframes : Apart frames) (hv : 0 < v.toInt)
    (hfit : n + v.toInt < 2 ^ 63) (p : List Name) : (Agg.add frames mods collapsed v inexact agg).sumAlong p =
      agg.sumAlong p + if p.isPrefixOf frames then v.toInt else 0 := by
  induction agg generalizing n with
  | nil =>
    have hvalue : (0 + v : Int64) = v := Int64.zero_add v
    rw [Agg.add, sumAlong_cons]
    show (if p.isPrefixOf frames then (0 + v : Int64).toInt else 0) + 0 = 0 + _
    rw [hvalue, Int.add_comm]
  | cons e agg ih =>
    have hrest : Agg.Holds agg (n - e.2.value.toInt) := by
      refine ⟨fun e' he' => h.measured e' (mem_cons_of_mem _ he'), ?_⟩
      have hsum := h.sum
      rw [map_cons, sum_cons] at hsum
      omega
    have hnonneg := hrest.nonneg
    have hpos := (h.measured e mem_cons_self).positive
    obtain ⟨⟨hkey, hapart⟩, hkeys⟩ := forall_mem_cons.mp hkeys
    rw [Agg.add]
    split
    · next heq =>
      obtain ⟨-, hvalue⟩ := (h.measured e mem_cons_self).add inexact hv (by omega)
      have hsame : e.2.frames = frames := hapart.eq_of_joinFrames hframes (hkey.symm.trans heq)
      rw [sumAlong_cons, sumAlong_cons]
      show (if p.isPrefixOf e.2.frames then (e.2.add v inexact).value.toInt else 0) + _ = _
      rw [hvalue, hsame]
      split <;> omega
    · rw [sumAlong_cons, sumAlong_cons, ih hrest hkeys (by omega), Int.add_assoc]

end Add

variable {collapse}

def Sample.weightAlong (collapse : List Name → List Name → List Name × List Name × List Bool) (p : List Name)
    (s : Sample) : Int :=
  if p.isPrefixOf (foldedFrames collapse s) then s.weight else 0

theorem foldSample_along {agg agg' : Agg} {n : Int} {s : Sample} (hagg : agg.Holds n) (hkeys : agg.Keyed)
    (h : foldSample collapse agg s = .ok agg') (hfit : n + s.weight < 2 ^ 63) (hs : Apart (foldedFrames collapse s)) :
    agg'.Keyed ∧ ∀ p, agg'.sumAlong p = agg.sumAlong p + s.weightAlong collapse p := by
  unfold foldSample at h
  unfold Sample.weightAlong
  unfold Sample.weight at hfit ⊢
  cases hvalue : s.value with
  | none =>
    rw [hvalue] at h
    cases h
  | some v =>
    rw [hvalue] at h hfit
    dsimp only at h hfit ⊢
    have hzero : (0 : Int64).toInt = 0 := rfl
    split at h
    · cases h
    · next hnonneg =>
      rw [Int64.lt_iff_toInt_lt, hzero] at hnonneg
      split at h
      · next hv =>
        cases h
        refine ⟨hkeys, fun p => ?_⟩
        rw [hv, hzero, ite_self, Int.add_zero]
      · next hne =>
        have hpos : 0 < v.toInt := by
          have hne' : v.toInt ≠ 0 := fun h0 => hne (Int64.toInt_inj.mp h0)
          omega
        have hfolded : foldedFrames collapse s = (collapse
            (if s.frames.length = 0 then ([unknownFrame], [[]]) else (s.frames, s.mods)).1
            (if s.frames.length = 0 then ([unknownFrame], [[]]) else (s.frames, s.mods)).2).1 := by
          unfold foldedFrames
          split <;> rfl
        rw [hfolded] at hs ⊢
        cases h
        exact ⟨hkeys.add hs, sumAlong_add hagg hkeys hs hpos hfit⟩

theorem foldlM_foldSample_along {samples : List Sample} {agg agg' : Agg} {n : Int} (hagg : agg.Holds n)
    (hkeys : agg.Keyed) (h : samples.foldlM (foldSample collapse) agg = .ok agg')
    (hfit : n + (samples.map Sample.weight).sum < 2 ^ 63) (hs : ∀ s ∈ samples, Apart (foldedFrames collapse s))
    (p : List Name) : agg'.sumAlong p = agg.sumAlong p + (samples.map (Sample.weightAlong collapse p)).sum := by
  induction samples generalizing agg n with
  | nil =>
    cases h
    exact (Int.add_zero _).symm
  | cons s samples ih =>
    obtain ⟨hs, hrest⟩ := forall_mem_cons.mp hs
    rw [foldlM_cons] at h
    cases hstep : foldSample collapse agg s with
    | error e =>
      rw [hstep] at h
      cases h
    | ok agg₁ =>
      rw [hstep] at h
      have hnonneg := weights_nonneg h
      rw [map_cons, sum_cons, ← Int.add_assoc] at hfit
      obtain ⟨hkeys₁, halong⟩ := foldSample_along hagg hkeys hstep (by omega) hs
      rw [ih (foldSample_holds hagg hstep (by omega)) hkeys₁ h hfit hrest, halong, map_cons, sum_cons, Int.add_assoc]

/-- The value of a node is that of the samples whose stacks lead through it, and there are no other nodes. -/
theorem measureAt_fold {samples : List Sample} {res : Result} (h : fold collapse samples = .ok res)
    (hfit : (samples.map Sample.weight).sum < 2 ^ 63) (hs : ∀ s ∈ samples, Apart (foldedFrames collapse s))
    (p : List Name) :
    (buildTree res).1.measureAt NodeInfo.value p = (samples.map (Sample.weightAlong collapse p)).sum := by
  have hfolded := (folded_fold h hfit).1
  rw [measureAt_buildTree hfolded (value_at hfolded)]
  unfold fold at h
  cases hagg : samples.foldlM (foldSample collapse) [] with
  | error e =>
    rw [hagg] at h
    cases h
  | ok agg =>
    rw [hagg] at h
    cases h
    have hempty : Agg.Holds [] 0 := ⟨fun _ he => absurd he not_mem_nil, rfl⟩
    have halong := foldlM_foldSample_along hempty (fun _ he => absurd he not_mem_nil) hagg (by omega) hs p
    have hperm := mergeSort_perm (agg.map Prod.snd) fun a b => decide (joinFrames a.frames ≤ joinFrames b.frames)
    have hsum := ((hperm.filter fun st => p.isPrefixOf st.frames).map fun st => st.value.toInt).sum_eq
    exact hsum.trans (halong.trans (Int.zero_add _))

theorem measureAt_fold_shared : ∃ res, fold (fun frames mods => (frames, mods, []))
      [⟨some 3, [[97], [98]], [], false⟩, ⟨some 2, [[97], [99]], [], true⟩] = .ok res ∧
    (buildTree res).1.measureAt NodeInfo.value [[97]] = 5 := by
  obtain ⟨res, hres⟩ : ∃ res, fold (fun frames mods => (frames, mods, []))
      [⟨some 3, [[97], [98]], [], false⟩, ⟨some 2, [[97], [99]], [], true⟩] = .ok res := ⟨_, rfl⟩
  refine ⟨res, hres, (measureAt_fold hres (by decide) ?_ _).trans (by decide)⟩
  intro s hs
  obtain rfl | rfl : s = ⟨some 3, [[97], [98]], [], false⟩ ∨ s = ⟨some 2, [[97], [99]], [], true⟩ := by simpa using hs
  · exact ⟨by decide, by decide⟩
  · exact ⟨by decide, by decide⟩

end PerfAgent.Flamegraph
