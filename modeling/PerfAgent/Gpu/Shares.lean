import PerfAgent.Gpu.Projection
import Mathlib.Algebra.Order.BigOperators.Group.List

/-!
# The shares of an execution

The PC samples of an execution share its duration exactly if the sum of their counts fits 64 bits.  Each share
is rounded down, so together they are not more than the whole, and the last one gets the rest.
-/

namespace PerfAgent.Gpu

open List

/-! ## Sums of words -/

variable (l : List UInt64)

def natSum : ℕ := (l.map UInt64.toNat).sum

@[simp] theorem natSum_nil : natSum [] = 0 := rfl

@[simp] theorem natSum_cons (a : UInt64) (l : List UInt64) : natSum (a :: l) = a.toNat + natSum l := rfl

theorem natSum_append (l' : List UInt64) : natSum (l ++ l') = natSum l + natSum l' := by
  unfold natSum
  rw [map_append, sum_append]

theorem toNat_add_of_lt {a b : UInt64} (h : a.toNat + b.toNat < 2 ^ 64) : (a + b).toNat = a.toNat + b.toNat := by
  rw [UInt64.toNat_add]
  exact Nat.mod_eq_of_lt h

theorem toNat_foldl_add (a : UInt64) (h : a.toNat + natSum l < 2 ^ 64) :
    (l.foldl (· + ·) a).toNat = a.toNat + natSum l := by
  induction l generalizing a with
  | nil => rfl
  | cons b l ih =>
    rw [natSum_cons, ← Nat.add_assoc] at h
    have hadd : (a + b).toNat = a.toNat + b.toNat := toNat_add_of_lt (by omega)
    rw [foldl_cons, ih (a + b) (by rw [hadd]; exact h), hadd, natSum_cons, Nat.add_assoc]

theorem le_natSum {l : List UInt64} {a : UInt64} (h : a ∈ l) : a.toNat ≤ natSum l :=
  single_le_sum (fun _ _ => Nat.zero_le _) _ (mem_map_of_mem h)

/-! ## Rounding down -/

def floors (whole total : ℕ) (parts : List ℕ) : List ℕ := parts.map fun part => whole * part / total

theorem sum_floors_le {whole : ℕ} {parts : List ℕ} (hpos : 0 < parts.sum) :
    (floors whole parts.sum parts).sum ≤ whole := by
  have hmul : ∀ total, total * (floors whole total parts).sum ≤ whole * parts.sum := by
    intro total
    induction parts with
    | nil => simp [floors]
    | cons part parts ih =>
      have hpart : total * (whole * part / total) ≤ whole * part := Nat.mul_div_le _ _
      have hrest : total * (floors whole total parts).sum ≤ whole * parts.sum := by
        by_cases hzero : parts.sum = 0
        · have hparts : ∀ p ∈ parts, p = 0 := fun p hp => sum_eq_zero_iff.mp hzero p hp
          have hfloors : (floors whole total parts).sum = 0 := by
            refine sum_eq_zero_iff.mpr ?_
            intro x hx
            obtain ⟨p, hp, rfl⟩ := mem_map.mp hx
            rw [hparts p hp, Nat.mul_zero, Nat.zero_div]
          rw [hfloors]
          exact Nat.zero_le _
        · exact ih (Nat.pos_of_ne_zero hzero)
      calc total * (floors whole total (part :: parts)).sum
          = total * (whole * part / total) + total * (floors whole total parts).sum := Nat.mul_add _ _ _
        _ ≤ whole * part + whole * parts.sum := Nat.add_le_add hpart hrest
        _ = whole * (part :: parts).sum := (Nat.mul_add _ _ _).symm
  have hle := hmul parts.sum
  rw [Nat.mul_comm whole] at hle
  exact Nat.le_of_mul_le_mul_left hle hpos

/-! ## The division -/

theorem mul64_spec (x y : UInt64) : (mul64 x y).1.toNat * 2 ^ 64 + (mul64 x y).2.toNat = x.toNat * y.toNat := by
  have hhi : x.toNat * y.toNat / 2 ^ 64 < 2 ^ 64 := by
    refine Nat.div_lt_of_lt_mul ?_
    exact Nat.mul_lt_mul'' x.toNat_lt y.toNat_lt
  have hfst : (mul64 x y).1.toNat = x.toNat * y.toNat / 2 ^ 64 := UInt64.toNat_ofNat_of_lt' hhi
  have hsnd : (mul64 x y).2.toNat = x.toNat * y.toNat % 2 ^ 64 := UInt64.toNat_mul x y
  rw [hfst, hsnd, Nat.mul_comm]
  exact Nat.div_add_mod _ _

theorem div64_mul64 {x y z : UInt64} (hpos : 0 < z.toNat) (hle : y.toNat ≤ z.toNat) :
    ∃ q, div64 (mul64 x y).1 (mul64 x y).2 z = some q ∧ q.toNat = x.toNat * y.toNat / z.toNat := by
  have hspec := mul64_spec x y
  have hx := x.toNat_lt
  have hq : x.toNat * y.toNat / z.toNat ≤ x.toNat := by
    refine Nat.div_le_of_le_mul ?_
    rw [Nat.mul_comm]
    exact Nat.mul_le_mul_right _ hle
  have hhi : (mul64 x y).1.toNat < z.toNat := by
    by_contra hge
    have hz : z.toNat * 2 ^ 64 ≤ (mul64 x y).1.toNat * 2 ^ 64 := Nat.mul_le_mul_right _ (Nat.not_lt.mp hge)
    have hlt : x.toNat * y.toNat < 2 ^ 64 * z.toNat :=
      Nat.lt_of_le_of_lt (Nat.mul_le_mul_left _ hle) (Nat.mul_lt_mul_of_pos_right hx hpos)
    omega
  refine ⟨UInt64.ofNat (x.toNat * y.toNat / z.toNat), ?_, UInt64.toNat_ofNat_of_lt' (by show _ < 2 ^ 64; omega)⟩
  unfold div64
  rw [if_neg, hspec]
  rintro (rfl | hz)
  · exact absurd hpos (by decide)
  · exact absurd (UInt64.le_iff_toNat_le.mp hz) (Nat.not_le.mpr hhi)

theorem mapM_div64 (x : UInt64) {z : UInt64} (hpos : 0 < z.toNat) {counts : List UInt64}
    (hle : ∀ c ∈ counts, c.toNat ≤ z.toNat) :
    ∃ weights, counts.mapM (fun c => div64 (mul64 x c).1 (mul64 x c).2 z) = some weights ∧
      weights.map UInt64.toNat = floors x.toNat z.toNat (counts.map UInt64.toNat) := by
  induction counts with
  | nil => exact ⟨[], rfl, rfl⟩
  | cons c counts ih =>
    obtain ⟨q, hq, hvalue⟩ := div64_mul64 (x := x) hpos (hle c mem_cons_self)
    obtain ⟨weights, hweights, hvalues⟩ := ih fun c' hc' => hle c' (mem_cons_of_mem _ hc')
    refine ⟨q :: weights, ?_, ?_⟩
    · rw [mapM_cons, hq, hweights]
      rfl
    · simp only [map_cons, hvalue, hvalues, floors]

/-! ## The whole -/

/-- The counts of the PC samples, at least 1 each, have a sum of 64 bits. -/
def CountsFit (pcs : List GPUPCSample) : Prop := natSum (pcs.map pcCount) < 2 ^ 64

instance (pcs : List GPUPCSample) : Decidable (CountsFit pcs) := inferInstanceAs (Decidable (_ < _))

theorem pcCount_pos (s : GPUPCSample) : 0 < (pcCount s).toNat := by
  unfold pcCount
  split
  · decide
  · next h => exact Nat.not_lt.mp fun hlt => h (UInt64.lt_iff_toNat_lt.mpr hlt)

theorem length_addResidue (execWeight : UInt64) (weights : List UInt64) :
    (addResidue execWeight weights).length = weights.length := by
  unfold addResidue
  simp only
  split
  · exact length_modify ..
  · rfl

theorem natSum_addResidue {execWeight : UInt64} {weights : List UInt64} (hne : weights ≠ [])
    (hle : natSum weights ≤ execWeight.toNat) : natSum (addResidue execWeight weights) = execWeight.toNat := by
  have hlt := execWeight.toNat_lt
  have hzero : (0 : UInt64).toNat = 0 := rfl
  have hdist : (weights.foldl (· + ·) 0).toNat = natSum weights := by
    rw [toNat_foldl_add _ _ (by rw [hzero]; omega), hzero, Nat.zero_add]
  unfold addResidue
  simp only
  split
  · have hsub : (execWeight - weights.foldl (· + ·) 0).toNat = execWeight.toNat - natSum weights := by
      rw [UInt64.toNat_sub_of_le, hdist]
      exact UInt64.le_iff_toNat_le.mpr (by rw [hdist]; exact hle)
    obtain ⟨w, hw⟩ : ∃ w, weights[weights.length - 1]? = some w := by
      rw [← getLast?_eq_getElem?]
      exact ⟨_, getLast?_eq_some_getLast hne⟩
    obtain ⟨l₁, l₂, hsplit, hmodify⟩ := modify_split hw
    rw [hmodify, natSum_append, natSum_cons]
    have hsum : natSum l₁ + (w.toNat + natSum l₂) = natSum weights := by
      rw [hsplit, natSum_append, natSum_cons]
    rw [toNat_add_of_lt (by omega), hsub]
    omega
  · next hge =>
      have hge' : execWeight.toNat ≤ natSum weights := by
        rw [← hdist]
        exact Nat.not_lt.mp fun h => hge (UInt64.lt_iff_toNat_lt.mpr h)
      omega

variable {pcs : List GPUPCSample}

theorem distributeExecutionWeight_spec (execWeight : UInt64) (hne : pcs ≠ []) (hfit : CountsFit pcs) :
    ∃ weights, distributeExecutionWeight execWeight pcs = some weights ∧
      weights.length = pcs.length ∧ natSum weights = execWeight.toNat := by
  obtain ⟨pc, pcs', hcons⟩ := exists_cons_of_ne_nil hne
  have hzero : (0 : UInt64).toNat = 0 := rfl
  have htotal : ((pcs.map pcCount).foldl (· + ·) 0).toNat = natSum (pcs.map pcCount) := by
    rw [toNat_foldl_add _ _ (by rw [hzero, Nat.zero_add]; exact hfit), hzero, Nat.zero_add]
  have hpos : 0 < natSum (pcs.map pcCount) := by
    rw [hcons, map_cons, natSum_cons]
    exact Nat.add_pos_left (pcCount_pos pc) _
  obtain ⟨weights, hweights, hvalues⟩ := mapM_div64 execWeight (htotal ▸ hpos) (fun c hc => htotal ▸ le_natSum hc)
  have hlen : weights.length = pcs.length := by
    have := congrArg List.length hvalues
    simpa [floors] using this
  have hle : natSum weights ≤ execWeight.toNat := by
    unfold natSum
    rw [hvalues, htotal]
    exact sum_floors_le hpos
  refine ⟨addResidue execWeight weights, ?_, (length_addResidue ..).trans hlen, natSum_addResidue ?_ hle⟩
  · unfold distributeExecutionWeight
    rw [if_neg hne]
    simp only [hweights, Option.map_some]
  · rintro rfl
    exact hne (eq_nil_of_length_eq_zero hlen.symm)

-- Two counts that come to 4 more than `2 ^ 64` get more than there is to share.
example : distributeExecutionWeight 1 [{ count := 2 ^ 63 }, { count := 2 ^ 63 + 4 }] =
    some [2 ^ 61, 2 ^ 61 + 1] := by decide +kernel

/-! ## The samples of a projection -/

def shares (v : ExecutionView) : Option (List UInt64) :=
  if v.pcSamples = [] then some [executionWeight v.exec]
  else distributeExecutionWeight (executionWeight v.exec) (v.pcSamples.map Emission.sample)

def ExecutionView.CountsFit (v : ExecutionView) : Prop := Gpu.CountsFit (v.pcSamples.map Emission.sample)

instance (v : ExecutionView) : Decidable v.CountsFit := inferInstanceAs (Decidable (Gpu.CountsFit _))

theorem ExecutionView.CountsFit.shares {v : ExecutionView} (h : v.CountsFit) :
    ∃ ws, Gpu.shares v = some ws ∧ natSum ws = (executionWeight v.exec).toNat := by
  unfold Gpu.shares
  by_cases hnil : v.pcSamples = []
  · rw [if_pos hnil]
    exact ⟨_, rfl, Nat.add_zero _⟩
  · rw [if_neg hnil]
    have hne : v.pcSamples.map Emission.sample ≠ [] := fun hmap => hnil (map_eq_nil_iff.mp hmap)
    obtain ⟨ws, hws, -, hsum⟩ := distributeExecutionWeight_spec (executionWeight v.exec) hne h
    exact ⟨ws, hws, hsum⟩

theorem length_mapM {α β : Type} {f : α → Option β} {l : List α} {l' : List β} (h : l.mapM f = some l') :
    l'.length = l.length := by
  induction l generalizing l' with
  | nil =>
    cases h
    rfl
  | cons a l ih =>
    rw [mapM_cons] at h
    obtain ⟨b, -, h⟩ := Option.bind_eq_some_iff.mp h
    obtain ⟨bs, hbs, h⟩ := Option.bind_eq_some_iff.mp h
    cases h
    exact congrArg (· + 1) (ih hbs)

theorem length_distributeExecutionWeight {execWeight : UInt64} {ws : List UInt64}
    (h : distributeExecutionWeight execWeight pcs = some ws) : ws.length = pcs.length := by
  unfold distributeExecutionWeight at h
  by_cases hnil : pcs = []
  · rw [if_pos hnil] at h
    cases h
    rw [hnil]
    rfl
  · rw [if_neg hnil] at h
    obtain ⟨weights, hweights, rfl⟩ := Option.map_eq_some_iff.mp h
    rw [length_addResidue, length_mapM hweights, length_map]

def claimOf (s : Pprof.ProfileSample × Nat) : Nat × UInt64 := (s.2, s.1.value)

theorem foldl_addPCSample (i : Nat) (view : ExecutionView) (frames : List Pprof.Frame) (common : Labels)
    (l : List (GPUPCSample × Resolution × UInt64)) (p : Projection) :
    ∃ new, (l.foldl (Projection.addPCSample i view frames common) p).samples = p.samples ++ new ∧
      new.map claimOf = l.map (fun pc => (i, pc.2.2)) ∧ ∀ s ∈ new, s.1.sampleType = .gpu := by
  induction l generalizing p with
  | nil => exact ⟨[], (append_nil _).symm, rfl, nofun⟩
  | cons pc l ih =>
    obtain ⟨new, hnew, hmap, hgpu⟩ := ih (p.addPCSample i view frames common pc)
    obtain ⟨s, hs, hclaim, hs'⟩ : ∃ s, (p.addPCSample i view frames common pc).samples = p.samples ++ [s] ∧
        claimOf s = (i, pc.2.2) ∧ s.1.sampleType = .gpu := ⟨_, rfl, rfl, rfl⟩
    refine ⟨s :: new, ?_, ?_, ?_⟩
    · rw [foldl_cons, hnew, hs, append_assoc]
      rfl
    · rw [map_cons, hmap, hclaim]
      rfl
    · intro s' hmem
      rcases mem_cons.mp hmem with rfl | hmem
      · exact hs'
      · exact hgpu s' hmem

theorem map_zip_shares {α β γ : Type} (l : List α) (l' : List β) (ws : List γ) (h : l'.length = l.length)
    (h' : ws.length = l.length) : (l.zip (l'.zip ws)).map (fun pc => pc.2.2) = ws := by
  have hzip : (l'.zip ws).length = l.length := by
    rw [length_zip, h, h', Nat.min_self]
  calc (l.zip (l'.zip ws)).map (fun pc => pc.2.2) = ((l.zip (l'.zip ws)).map Prod.snd).map Prod.snd := (map_map ..).symm
    _ = (l'.zip ws).map Prod.snd := by rw [map_snd_zip hzip.le]
    _ = ws := map_snd_zip (h'.trans h.symm).le

theorem addView_spec (omitCorrelation : Bool) (answers : Nat → Nat → Resolution) (p : Projection)
    (v : ExecutionView × Nat) :
    (shares v.1 = none ∧ p.addView omitCorrelation answers v = none) ∨
    ∃ ws p' new, shares v.1 = some ws ∧ p.addView omitCorrelation answers v = some p' ∧
      p'.samples = p.samples ++ new ∧ new.map claimOf = ws.map (fun w => (v.2, w)) ∧
      ∀ s ∈ new, s.1.sampleType = .gpu := by
  unfold shares Projection.addView
  by_cases hnil : v.1.pcSamples = []
  · simp only [if_pos hnil]
    refine .inr ⟨_, _, _, rfl, rfl, rfl, rfl, ?_⟩
    intro s hs
    rw [mem_singleton.mp hs]
    rfl
  · simp only [if_neg hnil]
    cases hws : distributeExecutionWeight (executionWeight v.1.exec) (v.1.pcSamples.map Emission.sample) with
    | none => exact .inl ⟨rfl, rfl⟩
    | some ws =>
      obtain ⟨new, hnew, hmap, hgpu⟩ := foldl_addPCSample v.2 v.1 (ProjectionMemo.frames p.memo v.1).2
        (ProjectionMemo.labels (ProjectionMemo.frames p.memo v.1).1 v.1 omitCorrelation).2
        ((v.1.pcSamples.map Emission.sample).zip
          (((List.range (v.1.pcSamples.map Emission.sample).length).map (answers v.2)).zip ws))
        { p with memo := (ProjectionMemo.labels (ProjectionMemo.frames p.memo v.1).1 v.1 omitCorrelation).1 }
      refine .inr ⟨ws, _, new, rfl, rfl, hnew, ?_, hgpu⟩
      have hzip := map_zip_shares (v.1.pcSamples.map Emission.sample)
        ((List.range (v.1.pcSamples.map Emission.sample).length).map (answers v.2)) ws (by simp) (length_distributeExecutionWeight hws)
      rw [hmap]
      conv_rhs => rw [← hzip, map_map]
      rfl

/-! ## The ledger -/

variable {vs : List ExecutionView}

end PerfAgent.Gpu
