import Mathlib.Data.List.MinMax
import PerfAgent.Lib.SortSearch

/-!
# What a table of starting points says at a point

An element of a table holds from its key on, until the key of the next one, and some elements only say that
nothing holds from their key on.  A table that is put together from several is looked up as one: this says when
it answers as its parts do, in whatever order they were put together.
-/

namespace PerfAgent

open List

universe u v w

/-! ## The latest element -/

section LatestAt

variable {α : Type u} {β : Type v} [LinearOrder β] (key : α → β) {x y : β} {l l' : List α} {a b : α}

/-- Of the elements whose keys are not past `x` one with the greatest key, and of those the last. -/
def latestAt (x : β) (l : List α) : Option α := (l.filter fun a => key a ≤ x).reverse.argmax key

variable {key}

theorem latestAt_eq_none_iff : latestAt key x l = none ↔ ∀ b ∈ l, x < key b := by
  unfold latestAt
  rw [argmax_eq_none, reverse_eq_nil_iff, filter_eq_nil_iff]
  simp only [decide_eq_true_eq, not_le]

theorem latestAt_cons_of_lt (h : x < key a) : latestAt key x (a :: l) = latestAt key x l := by
  unfold latestAt
  rw [filter_cons_of_neg (by simpa using h)]

theorem latestAt_cons_of_le (h : key a ≤ x) : latestAt key x (a :: l) =
      (latestAt key x l).casesOn (some a) fun c => if key c < key a then some a else some c := by
  unfold latestAt
  rw [filter_cons_of_pos (by simpa using h), reverse_cons, argmax_concat]

theorem latestAt_spec (h : latestAt key x l = some a) :
    key a ≤ x ∧ (∀ b ∈ l, key b ≤ x → key b ≤ key a) ∧ (l.filter fun b => key b = key a).getLast? = some a := by
  induction l generalizing a with
  | nil => cases h
  | cons b l ih =>
    by_cases hb : key b ≤ x
    · rw [latestAt_cons_of_le hb] at h
      cases hl : latestAt key x l with
      | none =>
        rw [hl] at h
        obtain rfl := Option.some.inj h
        have hpast := latestAt_eq_none_iff.mp hl
        refine ⟨hb, fun c hc hcx => ?_, ?_⟩
        · rcases mem_cons.mp hc with rfl | hc
          · exact le_refl _
          · exact absurd hcx (not_le.mpr (hpast c hc))
        · rw [filter_cons_of_pos (by simp), filter_eq_nil_iff.mpr]
          · rfl
          · intro c hc
            simpa using ne_of_gt (hb.trans_lt (hpast c hc))
      | some c =>
        rw [hl] at h
        obtain ⟨hcx, hmax, hlast⟩ := ih hl
        change (if key c < key b then some b else some c) = some a at h
        split at h
        · next hlt =>
          obtain rfl := Option.some.inj h
          refine ⟨hb, fun d hd hdx => ?_, ?_⟩
          · rcases mem_cons.mp hd with rfl | hd
            · exact le_refl _
            · exact (hmax d hd hdx).trans hlt.le
          · rw [filter_cons_of_pos (by simp), filter_eq_nil_iff.mpr]
            · rfl
            · intro d hd hk
              have hkey : key d = key b := of_decide_eq_true hk
              exact absurd (hmax d hd (hkey.trans_le hb)) (not_le.mpr (hkey ▸ hlt))
        · next hge =>
          obtain rfl := Option.some.inj h
          refine ⟨hcx, fun d hd hdx => ?_, ?_⟩
          · rcases mem_cons.mp hd with rfl | hd
            · exact not_lt.mp hge
            · exact hmax d hd hdx
          · by_cases hkey : key b = key c
            · rw [filter_cons_of_pos (by simpa using hkey), getLast?_cons, hlast]
              rfl
            · rw [filter_cons_of_neg (by simpa using hkey), hlast]
    · have hlt := not_le.mp hb
      rw [latestAt_cons_of_lt hlt] at h
      obtain ⟨hax, hmax, hlast⟩ := ih h
      refine ⟨hax, fun c hc hcx => ?_, ?_⟩
      · rcases mem_cons.mp hc with rfl | hc
        · exact absurd hcx hb
        · exact hmax c hc hcx
      · rw [filter_cons_of_neg (by simpa using ne_of_gt (hax.trans_lt hlt)), hlast]

theorem latestAt_eq_some_iff : latestAt key x l = some a ↔
      key a ≤ x ∧ (∀ b ∈ l, key b ≤ x → key b ≤ key a) ∧ (l.filter fun b => key b = key a).getLast? = some a := by
  refine ⟨latestAt_spec, fun ⟨hax, hmax, hlast⟩ => ?_⟩
  have hmem : a ∈ l := (mem_filter.mp (mem_of_getLast? hlast)).1
  cases hl : latestAt key x l with
  | none => exact absurd hax (not_le.mpr (latestAt_eq_none_iff.mp hl a hmem))
  | some c =>
    obtain ⟨hcx, hmax', hlast'⟩ := latestAt_spec hl
    have hkey : key c = key a :=
      le_antisymm (hmax c (mem_filter.mp (mem_of_getLast? hlast')).1 hcx) (hmax' a hmem hax)
    rw [hkey, hlast] at hlast'
    exact hlast'.symm

theorem mem_of_latestAt (h : latestAt key x l = some a) : a ∈ l :=
  (mem_filter.mp (mem_of_getLast? (latestAt_spec h).2.2)).1

theorem latestAt_congr (h : ∀ k, (l.filter fun b => key b = k) = l'.filter fun b => key b = k) :
    latestAt key x l = latestAt key x l' := by
  have hmem : ∀ b, b ∈ l ↔ b ∈ l' := fun b => by
    have hb := congrArg (b ∈ ·) (h (key b))
    simpa using hb
  refine Option.ext fun a => ?_
  rw [latestAt_eq_some_iff, latestAt_eq_some_iff, h (key a)]
  simp only [hmem]

theorem latestAt_eq_of_none_between (hyx : y ≤ x) (h : ∀ b ∈ l, key b ≤ x → key b ≤ y) :
    latestAt key x l = latestAt key y l := by
  unfold latestAt
  rw [filter_congr fun b hb => decide_eq_decide.mpr ⟨h b hb, fun hle => hle.trans hyx⟩]

/-! ## In a sorted table -/

theorem latestAt_eq_getLast? (h : l.Pairwise fun a b => key a ≤ key b) :
    latestAt key x l = (l.filter fun a => key a ≤ x).getLast? := by
  have hrev := pairwise_reverse.mpr (h.sublist (filter_sublist (p := fun a => key a ≤ x)))
  unfold latestAt
  rw [getLast?_eq_head?_reverse]
  cases hl : (l.filter fun a => key a ≤ x).reverse with
  | nil => rfl
  | cons a m =>
    rw [hl, pairwise_cons] at hrev
    rw [argmax_cons, head?_cons]
    cases hm : m.argmax key with
    | none => rfl
    | some c => exact if_neg (not_lt.mpr (hrev.1 c (argmax_mem hm)))

theorem getElem?_sortSearch_pred (h : l.Pairwise fun a b => key a ≤ key b) :
    (if (sortSearch l.length fun i => l[i]?.any fun a => x < key a) = 0 then none
      else l[(sortSearch l.length fun i => l[i]?.any fun a => x < key a) - 1]?) = latestAt key x l := by
  have hmono : l.Pairwise fun a b => decide (x < key a) = true → decide (x < key b) = true :=
    h.imp fun hab ha => decide_eq_true ((of_decide_eq_true ha).trans_le hab)
  have hfilter : (l.filter fun a => !decide (x < key a)) = l.filter fun a => key a ≤ x :=
    filter_congr fun a _ => by simp only [← decide_not, not_lt]
  have htake := take_countP_not hmono
  rw [latestAt_eq_getLast? h, sortSearch_length hmono, ← hfilter, getLast?_eq_getElem?,
    ← countP_eq_length_filter, ← htake]
  split
  · next hzero => rw [hzero, take_zero, getElem?_nil]
  · next hpos => rw [getElem?_take_of_lt (by omega)]

variable (key)

theorem filter_mergeSort (k : β) :
    ((l.mergeSort fun a b => key a ≤ key b).filter fun b => key b = k) = l.filter fun b => key b = k := by
  have hle : (l.filter fun b => key b = k).Pairwise fun a b => decide (key a ≤ key b) = true := by
    refine pairwise_of_forall_mem_list fun a ha b hb => ?_
    have hka : key a = k := of_decide_eq_true (mem_filter.mp ha).2
    have hkb : key b = k := of_decide_eq_true (mem_filter.mp hb).2
    exact decide_eq_true (hka.trans hkb.symm).le
  have hsub := (sublist_mergeSort
    (fun a b c hab hbc => decide_eq_true ((of_decide_eq_true hab).trans (of_decide_eq_true hbc)))
    (fun a b => by simpa using le_total (key a) (key b)) hle filter_sublist).filter fun b => key b = k
  rw [filter_filter] at hsub
  simp only [Bool.and_self] at hsub
  exact (hsub.eq_of_length ((mergeSort_perm l _).filter _).length_eq.symm).symm

theorem latestAt_mergeSort : latestAt key x (l.mergeSort fun a b => key a ≤ key b) = latestAt key x l :=
  latestAt_congr (filter_mergeSort key)

theorem pairwise_mergeSort_key : (l.mergeSort fun a b => key a ≤ key b).Pairwise fun a b => key a ≤ key b := by
  have h := @List.pairwise_mergeSort _ (fun a b => decide (key a ≤ key b))
    (fun a b c hab hbc => decide_eq_true ((of_decide_eq_true hab).trans (of_decide_eq_true hbc)))
    (fun a b => by simpa using le_total (key a) (key b)) l
  exact h.imp of_decide_eq_true

end LatestAt

/-! ## A table of several parts -/

section Merged

variable {α : Type u} {β : Type v} [LinearOrder β] {key : α → β} {σ : Type w} {ss ts : List σ}
  {g : σ → List α} {x y : β} {a : α} {s t : σ}

theorem latestAt_flatMap_eq_none_iff :
    latestAt key x (ss.flatMap g) = none ↔ ∀ s ∈ ss, latestAt key x (g s) = none := by
  simp only [latestAt_eq_none_iff, mem_flatMap]
  exact ⟨fun h s hs b hb => h b ⟨s, hs, hb⟩, fun h b ⟨s, hs, hb⟩ => h s hs b hb⟩

theorem exists_of_latestAt_flatMap (h : latestAt key x (ss.flatMap g) = some a) :
    ∃ s ∈ ss, latestAt key x (g s) = some a := by
  obtain ⟨hax, hmax, hlast⟩ := latestAt_spec h
  rw [filter_flatMap, flatMap_def, getLast?_flatten] at hlast
  obtain ⟨m, hm, hmlast⟩ := exists_of_findSome?_eq_some hlast
  obtain ⟨s, hs, rfl⟩ := mem_map.mp (mem_reverse.mp hm)
  exact ⟨s, hs, latestAt_eq_some_iff.mpr ⟨hax, fun b hb => hmax b (mem_flatMap.mpr ⟨s, hs, hb⟩), hmlast⟩⟩

theorem latestAt_of_flatMap (h : latestAt key x (ss.flatMap g) = some a) (hs : s ∈ ss) :
    latestAt key x (g s) = latestAt key (key a) (g s) :=
  latestAt_eq_of_none_between (latestAt_spec h).1 fun b hb =>
    (latestAt_spec h).2.1 b (mem_flatMap.mpr ⟨s, hs, hb⟩)

theorem latestAt_flatMap_concat (h : latestAt key x (g s) = some a) (hx : key a = x) :
    latestAt key x ((ss ++ [s]).flatMap g) = some a := by
  obtain ⟨hax, hmax, hlast⟩ := latestAt_spec h
  refine latestAt_eq_some_iff.mpr ⟨hax, fun b _ hb => hx ▸ hb, ?_⟩
  rw [flatMap_append, flatMap_singleton, filter_append, getLast?_append, hlast]
  rfl

variable {γ : Type w} (live : α → Bool) (val : α → γ)

/-- What the latest element says, if it is not one that says that nothing holds. -/
def answerAt (key : α → β) (x : β) (l : List α) : Option γ :=
  (latestAt key x l).bind fun a => if live a then some (val a) else none

/-- The answer of the table is one of the answers of its parts, and there is none only if they have none. -/
def AnswersAsParts (key : α → β) (g : σ → List α) (ss : List σ) (x : β) : Prop :=
  (∃ s ∈ ss, ∃ c, answerAt live val key x (g s) = some c ∧ answerAt live val key x (ss.flatMap g) = some c) ∨
    ((∀ s ∈ ss, answerAt live val key x (g s) = none) ∧ answerAt live val key x (ss.flatMap g) = none)

/-- Where a part has an element, no other part is cut off by it, and none has an element that says another thing. -/
def AgreeAt (key : α → β) (g : σ → List α) (ss : List σ) (x : β) : Prop :=
  ∀ s ∈ ss, ∀ a, latestAt key x (g s) = some a → key a = x → ∀ t ∈ ss,
    ((answerAt live val key x (g t)).isSome → live a) ∧
      ∀ b, latestAt key x (g t) = some b → key b = x → live a → live b → val a = val b

variable {live val}

theorem answerAt_of_live (h : latestAt key x (g s) = some a) (hlive : live a = true) :
    answerAt live val key x (g s) = some (val a) := by
  unfold answerAt
  rw [h, Option.bind_some, if_pos hlive]

theorem AgreeAt.answersAsParts (h : ∀ y ≤ x, AgreeAt live val key g ss y) : AnswersAsParts live val key g ss x := by
  cases hl : latestAt key x (ss.flatMap g) with
  | none =>
    right
    have hnone := latestAt_flatMap_eq_none_iff.mp hl
    unfold answerAt
    exact ⟨fun s hs => by rw [hnone s hs]; rfl, by rw [hl]; rfl⟩
  | some a =>
    obtain ⟨s, hs, hsa⟩ := exists_of_latestAt_flatMap hl
    have hmerged : answerAt live val key x (ss.flatMap g) = if live a then some (val a) else none := by
      unfold answerAt
      rw [hl, Option.bind_some]
    by_cases hlive : live a = true
    · left
      exact ⟨s, hs, val a, answerAt_of_live hsa hlive, by rw [hmerged, if_pos hlive]⟩
    · right
      refine ⟨fun t ht => ?_, by rw [hmerged, if_neg hlive]⟩
      -- what the part says it says at the key already
      have hat : answerAt live val key x (g t) = answerAt live val key (key a) (g t) := by
        unfold answerAt
        rw [latestAt_of_flatMap hl ht]
      have hagree := h (key a) (latestAt_spec hl).1 s hs a (latestAt_of_flatMap hl hs ▸ hsa) rfl t ht
      rw [hat]
      exact Option.not_isSome_iff_eq_none.mp fun hsome => hlive (hagree.1 hsome)

theorem AgreeAt.answerAt_perm (h : ∀ y ≤ x, AgreeAt live val key g ss y) (hperm : ts.Perm ss) :
    answerAt live val key x (ts.flatMap g) = answerAt live val key x (ss.flatMap g) := by
  unfold answerAt
  cases hl : latestAt key x (ss.flatMap g) with
  | none =>
    have hnone := latestAt_flatMap_eq_none_iff.mp hl
    rw [latestAt_flatMap_eq_none_iff.mpr fun s hs => hnone s (hperm.mem_iff.mp hs)]
  | some a =>
    cases hl' : latestAt key x (ts.flatMap g) with
    | none =>
      obtain ⟨s, hs, hsa⟩ := exists_of_latestAt_flatMap hl
      rw [latestAt_flatMap_eq_none_iff.mp hl' s (hperm.mem_iff.mpr hs)] at hsa
      cases hsa
    | some b =>
      obtain ⟨s, hs, hsa⟩ := exists_of_latestAt_flatMap hl
      obtain ⟨t, ht, htb⟩ := exists_of_latestAt_flatMap hl'
      replace ht := hperm.mem_iff.mp ht
      have hmem : ∀ c, c ∈ ts.flatMap g ↔ c ∈ ss.flatMap g := fun c => (hperm.flatMap_right g).mem_iff
      have hkey : key b = key a := le_antisymm
        ((latestAt_spec hl).2.1 b ((hmem b).mp (mem_of_latestAt hl')) (latestAt_spec hl').1)
        ((latestAt_spec hl').2.1 a ((hmem a).mpr (mem_of_latestAt hl)) (latestAt_spec hl).1)
      rw [latestAt_of_flatMap hl hs] at hsa
      rw [latestAt_of_flatMap hl ht] at htb
      have hagree := h (key a) (latestAt_spec hl).1
      have hab := hagree s hs a hsa rfl t ht
      have hba := hagree t ht b htb hkey s hs
      simp only [Option.bind_some]
      by_cases hlive : live a = true
      · have hlive' : live b = true := hba.1 (by rw [answerAt_of_live hsa hlive]; rfl)
        rw [if_pos hlive, if_pos hlive', hab.2 b htb hkey hlive hlive']
      · have hlive' : ¬live b = true := fun hb => hlive (hab.1 (by rw [answerAt_of_live htb hb]; rfl))
        rw [if_neg hlive, if_neg hlive']

theorem exists_perm_concat (hs : s ∈ ss) : ∃ rest, (rest ++ [s]).Perm ss := by
  obtain ⟨front, back, rfl⟩ := append_of_mem hs
  refine ⟨front ++ back, ?_⟩
  rw [append_assoc]
  exact (perm_append_comm).append_left front

theorem agreeAt_of_answers (hparts : AnswersAsParts live val key g ss x) (hperm : ∀ ts : List σ, ts.Perm ss →
      answerAt live val key x (ts.flatMap g) = answerAt live val key x (ss.flatMap g)) :
    AgreeAt live val key g ss x := by
  have hanswer : ∀ s ∈ ss, ∀ a, latestAt key x (g s) = some a → key a = x →
      answerAt live val key x (ss.flatMap g) = if live a then some (val a) else none := fun s hs a ha hx => by
    obtain ⟨rest, hrest⟩ := exists_perm_concat hs
    rw [← hperm _ hrest]
    unfold answerAt
    rw [latestAt_flatMap_concat ha hx, Option.bind_some]
  intro s hs a ha hx t ht
  refine ⟨fun hsome => ?_, fun b hb hbx hlive hlive' => ?_⟩
  · by_contra hlive
    rcases hparts with ⟨_, _, c, _, hc⟩ | ⟨hnone, _⟩
    · rw [hanswer s hs a ha hx, if_neg hlive] at hc
      cases hc
    · rw [hnone t ht] at hsome
      cases hsome
  · have heq := hanswer s hs a ha hx
    rw [hanswer t ht b hb hbx, if_pos hlive, if_pos hlive'] at heq
    exact (Option.some.inj heq).symm

/-- The table answers as its parts do up to a point, in whatever order it was put together, if and only if the
parts agree up to that point. -/
theorem answers_iff_agree {S : Set β} (hS : IsLowerSet S) : (∀ x ∈ S, AnswersAsParts live val key g ss x ∧
      ∀ ts : List σ, ts.Perm ss → answerAt live val key x (ts.flatMap g) = answerAt live val key x (ss.flatMap g)) ↔
        ∀ x ∈ S, AgreeAt live val key g ss x :=
  ⟨fun h x hx => agreeAt_of_answers (h x hx).1 (h x hx).2, fun h _ hx =>
    ⟨AgreeAt.answersAsParts fun y hy => h y (hS hy hx), fun _ => AgreeAt.answerAt_perm fun y hy => h y (hS hy hx)⟩⟩

end Merged

end PerfAgent
