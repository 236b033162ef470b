import PerfAgent.Lib.Lists
import PerfAgent.Lib.MarkedRuns
import PerfAgent.Pprof.Frames

/-!
# The band of the instrumentation

`gpuprobe/instrumentation.go`: the unnamed frames of the shim and of CUPTI, with the unnamed driver frames
that lie against them, are marked, and each run of marked frames becomes one marker.  The rewriting goes on in
the slice that is read.
-/

namespace PerfAgent.Gpuprobe.Instrumentation

open List

open Pprof (Frame ascii hasPrefix pathBase)

/-! ## Marks -/

/-- ` (deleted)`, which the kernel writes behind the path of a file that is gone. -/
def deletedSuffix : List UInt8 := ascii " (deleted)"

/-- `strings.TrimSuffix`. -/
def trimSuffix (s suffix : List UInt8) : List UInt8 :=
  if suffix.isSuffixOf s then s.take (s.length - suffix.length) else s

/-- `shimScope`: the spellings of the shim's path, and its file name. -/
structure ShimScope where
  guarded : Bool := false
  paths : List (List UInt8) := []
  base : List UInt8 := []

def ShimScope.isShimModule (s : ShimScope) (module : List UInt8) : Bool :=
  let module := trimSuffix module deletedSuffix
  s.paths.contains module || pathBase module == s.base

structure InstrumentationBand where
  shim : ShimScope
  enabled : Bool

def newInstrumentationBand (s : ShimScope) (keep : Bool) : InstrumentationBand := ⟨s, s.guarded && !keep⟩

def instrumentationFrameName : List UInt8 := ascii "[gpu:instrumentation]"

def isCUPTIModule (module : List UInt8) : Bool := hasPrefix (pathBase module) (ascii "libcupti.so")

def isDriverModule (module : List UInt8) : Bool := hasPrefix (pathBase module) (ascii "libcuda.so")

def absorbable (f : Frame) : Bool := f.unresolved && isDriverModule f.module

variable {mark : List Bool}

def marker : Frame := { name := instrumentationFrameName }

namespace InstrumentationBand

variable (b : InstrumentationBand)

def isInstrumentation (f : Frame) : Bool :=
  f.unresolved && (b.shim.isShimModule f.module || isCUPTIModule f.module)

/-! ## Rewriting -/

/-- The slice with the indices of the loop: `out` is its first `w` frames. -/
structure Rewrite where
  buf : List Frame
  w : Nat := 0
  i : Nat := 0
  removed : Nat := 0

/-- Where the run of marks from `i` ends. -/
def runEnd (mark : List Bool) (i : Nat) : Nat := i + ((mark.drop i).takeWhile id).length

def Rewrite.step (mark : List Bool) (r : Rewrite) : Rewrite :=
  if mark.getD r.i false = false then
    { r with buf := r.buf.set r.w (r.buf.getD r.i marker), w := r.w + 1, i := r.i + 1 }
  else
    let j := runEnd mark r.i
    { buf := r.buf.set r.w marker, w := r.w + 1, i := j, removed := r.removed + (j - r.i - 1) }

def rewriteLoop (mark : List Bool) : Nat → Rewrite → Rewrite
  | 0, r => r
  | n + 1, r => if r.i < mark.length then rewriteLoop mark n (r.step mark) else r

def collapse (frames : List Frame) : List Frame × Nat :=
  if b.enabled = false ∨ frames = [] then (frames, 0)
  else
    let mark := frames.map b.isInstrumentation
    if mark.all (! ·) then (frames, 0)
    else
      let mark := spread (fun k => frames[k]?.any absorbable) mark
      let r := rewriteLoop mark frames.length { buf := frames }
      let out := r.buf.take r.w
      -- the slice has been written to by now
      if out.length = 1 ∧ out[0]?.any (·.name == instrumentationFrameName) then (r.buf, 0) else (out, r.removed)

/-! ## What the rewriting leaves -/

theorem runEnd_spec (mark : List Bool) {i : Nat} (hi : mark.getD i false = true) :
    i < runEnd mark i ∧ runEnd mark i ≤ mark.length := by
  have hlt : i < mark.length := by
    by_contra hge
    rw [getD_eq_getElem?_getD, getElem?_eq_none (by omega)] at hi
    cases hi
  have hget : mark[i] = true := by simpa [getD_eq_getElem?_getD, hlt] using hi
  have hdrop : mark.drop i = mark[i] :: mark.drop (i + 1) := drop_eq_getElem_cons hlt
  unfold runEnd
  constructor
  · rw [hdrop, hget]
    simp
  · have hle := ( takeWhile_prefix id (l := mark.drop i)).length_le
    rw [length_drop] at hle
    omega

/-- What is still to be read has not been written to, and what is written are the frames with their runs
replaced so far. -/
structure Rewritten (frames : List Frame) (mark : List Bool) (r : Rewrite) : Prop where
  length : r.buf.length = frames.length
  behind : r.w ≤ r.i
  inside : r.i ≤ frames.length
  unread : r.buf.drop r.i = frames.drop r.i
  written : r.buf.take r.w ++ replaceRuns marker false ((frames.zip mark).drop r.i) =
    replaceRuns marker false (frames.zip mark)
  counted : r.removed + r.w = r.i

theorem Rewritten.start (frames : List Frame) (mark : List Bool) : Rewritten frames mark { buf := frames } where
  length := rfl
  behind := Nat.le_refl 0
  inside := Nat.zero_le _
  unread := rfl
  written := rfl
  counted := rfl

theorem take_set_succ {α : Type*} {l : List α} {w : Nat} (h : w < l.length) (a : α) :
    (l.set w a).take (w + 1) = l.take w ++ [a] := by
  rw [take_succ_eq_append_getElem (by simpa using h), take_set_of_le (Nat.le_refl w), getElem_set_self]

theorem dropWhile_snd_drop {frames : List Frame} (hlen : mark.length = frames.length) (i : Nat) :
    ((frames.zip mark).drop i).dropWhile Prod.snd = (frames.zip mark).drop (runEnd mark i) := by
  have hmap : ((frames.zip mark).drop i).map Prod.snd = mark.drop i := by
    rw [map_drop, map_snd_zip (Nat.le_of_eq hlen)]
  unfold runEnd
  rw [← hmap, takeWhile_map, length_map, ← drop_drop, drop_length_takeWhile]
  rfl

theorem Rewritten.step {frames : List Frame} {mark : List Bool} (hlen : mark.length = frames.length) {r : Rewrite}
    (h : Rewritten frames mark r) (hi : r.i < mark.length) : Rewritten frames mark (r.step mark) := by
  have hif : r.i < frames.length := hlen ▸ hi
  have hw : r.w < r.buf.length := by rw [h.length]; exact Nat.lt_of_le_of_lt h.behind hif
  have hbuf : r.buf[r.i]? = frames[r.i]? := by
    have := congrArg (fun l => l[0]?) h.unread
    simpa using this
  have hzip : (frames.zip mark).drop r.i = (frames[r.i], mark[r.i]) :: (frames.zip mark).drop (r.i + 1) := by
    rw [drop_eq_getElem_cons (by simpa using ⟨hif, hi⟩), getElem_zip]
  have hunread : ∀ (j : Nat) (f : Frame), r.i < j → (r.buf.set r.w f).drop j = frames.drop j := fun j f hj => by
    have hle := h.behind
    rw [drop_set_of_lt (by omega)]
    have := congrArg (List.drop (j - r.i)) h.unread
    rwa [drop_drop, drop_drop, Nat.add_sub_cancel' (Nat.le_of_lt hj)] at this
  have hget : mark.getD r.i false = mark[r.i] := by simp [getD_eq_getElem?_getD, hi]
  have hcounted := h.counted
  have hwritten := h.written
  rw [hzip] at hwritten
  unfold Rewrite.step
  split
  · next hmark =>
    rw [hget] at hmark
    rw [hmark, replaceRuns_false] at hwritten
    have hread : r.buf.getD r.i marker = frames[r.i] := by
      rw [getD_eq_getElem?_getD, hbuf, getElem?_eq_getElem hif, Option.getD_some]
    refine ⟨by simpa using h.length, Nat.succ_le_succ h.behind, hif, hunread _ _ (Nat.lt_succ_self _), ?_,
      by simp only; omega⟩
    rw [take_set_succ hw, hread, append_assoc]
    exact hwritten
  · next hmark =>
    have hmark : mark.getD r.i false = true := by simpa using hmark
    obtain ⟨hlt, hle⟩ := runEnd_spec mark hmark
    have hb := h.behind
    rw [hget] at hmark
    rw [hmark, replaceRuns_start, replaceRuns_dropWhile] at hwritten
    have hrun : runEnd mark (r.i + 1) = runEnd mark r.i := by
      have hdrop : mark.drop r.i = mark[r.i] :: mark.drop (r.i + 1) := drop_eq_getElem_cons hi
      unfold runEnd
      rw [hdrop, hmark]
      simp only [takeWhile_cons, id_eq, if_true, length_cons]
      omega
    rw [dropWhile_snd_drop hlen, hrun] at hwritten
    refine ⟨by simpa using h.length, by simp only; omega, by simp only; omega, hunread _ _ hlt, ?_,
      by simp only; omega⟩
    rw [take_set_succ hw, append_assoc]
    exact hwritten

theorem rewriteLoop_spec {frames : List Frame} (hlen : mark.length = frames.length) {n : Nat} {r : Rewrite}
    (h : Rewritten frames mark r) (hn : frames.length - r.i ≤ n) :
    Rewritten frames mark (rewriteLoop mark n r) ∧ (rewriteLoop mark n r).i = frames.length := by
  induction n generalizing r with
  | zero =>
    have hle := h.inside
    exact ⟨h, by unfold rewriteLoop; omega⟩
  | succ n ih =>
    unfold rewriteLoop
    split
    · next hi =>
      refine ih (h.step hlen hi) ?_
      have hlt : r.i < (r.step mark).i := by
        unfold Rewrite.step
        split
        · exact Nat.lt_succ_self _
        · next hmark => exact (runEnd_spec mark (by simpa using hmark)).1
      omega
    · next hi =>
      have hle := h.inside
      exact ⟨h, by omega⟩

/-! ## Bands -/

/-- An unnamed frame of the shim or of CUPTI, or an unnamed driver frame that is connected to one through
such driver frames. -/
def Marked (frames : List Frame) (k : Nat) : Prop :=
  Joined (fun k => frames[k]?.any b.isInstrumentation) (fun k => frames[k]?.any absorbable) k

theorem Marked.exists_unresolved {b : InstrumentationBand} {frames : List Frame} {k : Nat} (h : b.Marked frames k) :
    ∃ f, frames[k]? = some f ∧ f.unresolved = true := by
  obtain ⟨a, ha, hpath⟩ := h
  by_cases hka : k = a
  · obtain ⟨f, hf, hinstr⟩ := (Option.any_eq_true _ _).mp (hka ▸ ha)
    exact ⟨f, hf, (Bool.and_eq_true _ _ |>.mp hinstr).1⟩
  · obtain ⟨f, hf, habs⟩ := (Option.any_eq_true _ _).mp (hpath k (by omega))
    exact ⟨f, hf, (Bool.and_eq_true _ _ |>.mp habs).1⟩

theorem Marked.lt {b : InstrumentationBand} {frames : List Frame} {k : Nat} (h : b.Marked frames k) :
    k < frames.length := by
  obtain ⟨f, hf, -⟩ := h.exists_unresolved
  exact (List.getElem?_eq_some_iff.mp hf).1

theorem Marked.reverse {b : InstrumentationBand} {frames : List Frame} {k : Nat} (h : b.Marked frames k) :
    b.Marked frames.reverse (frames.length - 1 - k) := by
  have hget : ∀ i, i < frames.length → frames.reverse[frames.length - 1 - i]? = frames[i]? := fun i hi => by
    rw [getElem?_reverse (by omega), show frames.length - 1 - (frames.length - 1 - i) = i by omega]
  refine Joined.mirror h h.lt (fun a ha => ?_) (fun i hi => by simp only [hget i hi])
    fun i hi => by simp only [hget i hi]
  obtain ⟨f, hf, -⟩ := (Option.any_eq_true _ _).mp ha
  exact (List.getElem?_eq_some_iff.mp hf).1

open Classical in
noncomputable def bands (frames : List Frame) : List (Frame × Bool) :=
  frames.mapIdx fun k f => (f, decide (b.Marked frames k))

@[simp] theorem length_bands (frames : List Frame) : (b.bands frames).length = frames.length := length_mapIdx

open Classical in
theorem getElem?_bands {frames : List Frame} {k : Nat} {e : Frame × Bool} :
    (b.bands frames)[k]? = some e ↔ frames[k]? = some e.1 ∧ (e.2 = true ↔ b.Marked frames k) := by
  rw [bands, getElem?_mapIdx, Option.map_eq_some_iff]
  constructor
  · rintro ⟨f, hf, rfl⟩
    exact ⟨hf, decide_eq_true_iff⟩
  · rintro ⟨hf, hm⟩
    refine ⟨e.1, hf, Prod.ext rfl ?_⟩
    rw [Bool.eq_iff_iff, decide_eq_true_iff, hm]

theorem zip_spread (frames : List Frame) :
    frames.zip (spread (fun k => frames[k]?.any absorbable) (frames.map b.isInstrumentation)) = b.bands frames ∧
      (spread (fun k => frames[k]?.any absorbable) (frames.map b.isInstrumentation)).length = frames.length := by
  obtain ⟨hlen, hmark⟩ := @spread_spec (fun k => frames[k]?.any b.isInstrumentation)
    (fun k => frames[k]?.any absorbable) (frames.map b.isInstrumentation)
    (fun k => by rw [getD_eq_getElem?_getD, getElem?_map]; cases frames[k]? <;> simp)
    (fun j hj => by
      obtain ⟨f, hf, -⟩ := (Option.any_eq_true _ _).mp hj
      simpa using (List.getElem?_eq_some_iff.mp hf).1)
  rw [length_map] at hlen
  refine ⟨ext_getElem? fun k => ?_, hlen⟩
  cases hf : frames[k]? with
  | none =>
    have hk : frames.length ≤ k := List.getElem?_eq_none_iff.mp hf
    rw [getElem?_eq_none (by simpa using .inl hk), getElem?_eq_none (by simpa using hk)]
  | some f =>
    have hk : k < frames.length := (List.getElem?_eq_some_iff.mp hf).1
    have hget := hmark k
    rw [getD_eq_getElem?_getD, getElem?_eq_getElem (by omega), Option.getD_some] at hget
    rw [(b.getElem?_bands (e := (f, _))).mpr ⟨hf, hget⟩, getElem?_zip_eq_some]
    exact ⟨hf, getElem?_eq_getElem (by omega)⟩

theorem mem_bands {frames : List Frame} {e : Frame × Bool} :
    e ∈ b.bands frames ↔ ∃ k, frames[k]? = some e.1 ∧ (e.2 = true ↔ b.Marked frames k) := by
  simp only [mem_iff_getElem?, getElem?_bands]

theorem bands_reverse (frames : List Frame) : b.bands frames.reverse = (b.bands frames).reverse := by
  refine ext_getElem? fun k => ?_
  by_cases hk : k < frames.length
  · have hi : frames.length - 1 - k < (b.bands frames).length := by
      rw [length_bands]
      omega
    have hlast := getElem?_eq_getElem hi
    obtain ⟨hf, hm⟩ := b.getElem?_bands.mp hlast
    rw [getElem?_reverse (by simpa using hk), length_bands, hlast, getElem?_bands, getElem?_reverse hk]
    refine ⟨hf, hm.trans ⟨fun h => ?_, fun h => ?_⟩⟩
    · have hr := h.reverse
      rwa [show frames.length - 1 - (frames.length - 1 - k) = k by omega] at hr
    · have hr := h.reverse
      rwa [reverse_reverse, length_reverse] at hr
  · rw [getElem?_eq_none (by simpa using hk), getElem?_eq_none (by simpa using hk)]

theorem map_fst_bands (frames : List Frame) : (b.bands frames).map Prod.fst = frames := by
  refine ext_getElem? fun k => ?_
  rw [getElem?_map, bands, getElem?_mapIdx, Option.map_map]
  exact Option.map_id'

theorem not_marked_of_all {frames : List Frame} (h : (frames.map b.isInstrumentation).all (! ·) = true) (k : Nat) :
    ¬b.Marked frames k := by
  rintro ⟨a, ha, -⟩
  obtain ⟨f, hf, hinstr⟩ := (Option.any_eq_true _ _).mp ha
  have := all_eq_true.mp h _ (mem_map_of_mem (mem_of_getElem? hf))
  rw [hinstr] at this
  cases this

theorem replaceRuns_of_unmarked {l : List (Frame × Bool)} (h : ∀ e ∈ l, e.2 = false) (inRun : Bool) :
    replaceRuns marker inRun l = l.map Prod.fst := by
  induction l generalizing inRun with
  | nil => simp
  | cons e l ih =>
    obtain ⟨f, m⟩ := e
    obtain rfl : m = false := h _ mem_cons_self
    rw [replaceRuns_false, ih fun e he => h e (mem_cons_of_mem _ he)]
    rfl

theorem exists_rewritten (frames : List Frame) :
    ∃ r, r = rewriteLoop (spread (fun k => frames[k]?.any absorbable) (frames.map b.isInstrumentation))
        frames.length { buf := frames } ∧
      r.buf.length = frames.length ∧ r.buf.take r.w = replaceRuns marker false (b.bands frames) ∧
      r.removed + (replaceRuns marker false (b.bands frames)).length = frames.length := by
  obtain ⟨hzip, hlen⟩ := b.zip_spread frames
  obtain ⟨h, hend⟩ := rewriteLoop_spec hlen (.start frames _) (n := frames.length) (by simp)
  have hwritten := h.written
  rw [hend, drop_eq_nil_of_le (by simp), replaceRuns_nil, append_nil, hzip] at hwritten
  have hb := h.behind
  refine ⟨_, rfl, h.length, hwritten, ?_⟩
  rw [← hwritten, length_take, h.length, Nat.min_eq_left (by omega), h.counted, hend]

theorem collapse_eq (hb : b.enabled = true) {frames : List Frame} (h : ∃ k < frames.length, ¬b.Marked frames k) :
    (b.collapse frames).1 = replaceRuns marker false (b.bands frames) ∧
      (b.collapse frames).2 + (b.collapse frames).1.length = frames.length := by
  obtain ⟨k, hk, hkept⟩ := h
  have hne : frames ≠ [] := ne_nil_of_length_pos (by omega)
  unfold collapse
  rw [if_neg (by simp [hb, hne])]
  simp only
  split
  · next hall =>
    refine ⟨?_, by simp⟩
    rw [replaceRuns_of_unmarked, map_fst_bands]
    intro e he
    obtain ⟨k, -, hm⟩ := b.mem_bands.mp he
    exact Bool.eq_false_iff.mpr fun h => b.not_marked_of_all hall k (hm.mp h)
  · next hall =>
    obtain ⟨r, hr, hlen, hwritten, hcounted⟩ := b.exists_rewritten frames
    rw [← hr]
    have htwo : 2 ≤ (replaceRuns marker false (b.bands frames)).length := by
      refine two_le_length_replaceRuns marker ?_ ⟨(frames[k], false), b.mem_bands.mpr ⟨k, by simp [hk], ?_⟩, rfl⟩
      · simp only [all_map, all_eq_true, Function.comp_apply, Bool.not_eq_true', not_forall] at hall
        obtain ⟨f, hf, hinstr⟩ := hall
        obtain ⟨i, hi⟩ := mem_iff_getElem?.mp hf
        refine ⟨(f, true), b.mem_bands.mpr ⟨i, hi, ?_⟩, rfl⟩
        exact iff_of_true rfl (.of_anchor (by simpa [hi] using hinstr))
      · exact iff_of_false Bool.false_ne_true hkept
    rw [if_neg (by rw [hwritten]; omega)]
    exact ⟨hwritten, by rw [hwritten]; exact hcounted⟩

theorem collapse_of_all (hb : b.enabled = true) {frames : List Frame} (hne : frames ≠ [])
    (h : ∀ k < frames.length, b.Marked frames k) :
    (b.collapse frames).1[0]? = some marker ∧ (b.collapse frames).2 = 0 := by
  have hpos := length_pos_iff.mpr hne
  unfold collapse
  rw [if_neg (by simp [hb, hne])]
  simp only
  split
  · next hall => exact absurd (h 0 hpos) (b.not_marked_of_all hall 0)
  · next hall =>
    obtain ⟨r, hr, hlen, hwritten, -⟩ := b.exists_rewritten frames
    rw [← hr]
    have hone : replaceRuns marker false (b.bands frames) = [marker] := by
      have hmarked : ∀ e ∈ b.bands frames, e.2 = true := fun e he => by
        obtain ⟨k, hk, hm⟩ := b.mem_bands.mp he
        exact hm.mpr (h k (List.getElem?_eq_some_iff.mp hk).1)
      have hlen : (b.bands frames).length = frames.length := by simp [bands]
      generalize b.bands frames = l at hmarked hlen
      rcases l with - | ⟨⟨f, m⟩, l⟩
      · rw [length_nil] at hlen
        omega
      · obtain rfl : m = true := hmarked _ mem_cons_self
        rw [replaceRuns_start, replaceRuns_of_all marker fun e he => hmarked e (mem_cons_of_mem _ he)]
    rw [hone] at hwritten
    have hfirst : r.buf[0]? = some marker := by
      have h₀ := congrArg (fun l => l[0]?) hwritten
      simp only [getElem?_cons_zero] at h₀
      have hw : 0 < r.w := by
        by_contra hw
        rw [Nat.eq_zero_of_not_pos hw] at hwritten
        cases hwritten
      rwa [getElem?_take_of_lt hw] at h₀
    rw [hwritten, if_pos ⟨rfl, by decide⟩]
    exact ⟨hfirst, rfl⟩

/-! ## What the rule promises -/

/-- Each band of a stack that has other frames becomes one marker, and the frames that go are counted; a
stack that is all band stays as it is; the stack from its other end loses the same. -/
structure CollapsesBands (frames : List Frame) : Prop where
  replaced : (∃ k < frames.length, ¬b.Marked frames k) →
    (b.collapse frames).1 = replaceRuns marker false (b.bands frames) ∧
      (b.collapse frames).2 + (b.collapse frames).1.length = frames.length
  untouched : (∀ k < frames.length, b.Marked frames k) → b.collapse frames = (frames, 0)
  reversed : b.collapse frames.reverse = ((b.collapse frames).1.reverse, (b.collapse frames).2)

/-- The rule holds of a stack unless it has frames and all of them are marked. -/
theorem collapsesBands_iff (hb : b.enabled = true) (frames : List Frame) :
    b.CollapsesBands frames ↔ (frames ≠ [] → ∃ k < frames.length, ¬b.Marked frames k) := by
  constructor
  · intro h hne
    by_contra hall
    push Not at hall
    have heq := (b.collapse_of_all hb hne hall).1
    rw [h.untouched hall] at heq
    obtain ⟨f, hf, hunresolved⟩ := (hall 0 (length_pos_iff.mpr hne)).exists_unresolved
    rw [hf, Option.some.injEq] at heq
    rw [heq] at hunresolved
    cases hunresolved
  · intro h
    by_cases hne : frames = []
    · subst hne
      exact ⟨fun ⟨k, hk, _⟩ => absurd hk (Nat.not_lt_zero k), fun _ => by simp [collapse], by simp [collapse]⟩
    · obtain ⟨k, hk, hkept⟩ := h hne
      obtain ⟨hout, hcount⟩ := b.collapse_eq hb ⟨k, hk, hkept⟩
      refine ⟨fun _ => ⟨hout, hcount⟩, fun hall => absurd (hall k hk) hkept, ?_⟩
      have hr : ∃ k < frames.reverse.length, ¬b.Marked frames.reverse k := by
        refine ⟨frames.length - 1 - k, by rw [length_reverse]; omega, fun hm => hkept ?_⟩
        have hm := hm.reverse
        rwa [reverse_reverse, length_reverse,
          show frames.length - 1 - (frames.length - 1 - k) = k by omega] at hm
      obtain ⟨hout', hcount'⟩ := b.collapse_eq hb hr
      have hrev : (b.collapse frames.reverse).1 = (b.collapse frames).1.reverse := by
        rw [hout', hout, bands_reverse, replaceRuns_reverse]
      refine Prod.ext hrev ?_
      rw [hrev, length_reverse, length_reverse] at hcount'
      simp only
      omega

end InstrumentationBand

def shimBand : InstrumentationBand :=
  newInstrumentationBand { guarded := true, paths := [ascii "/opt/shim.so"], base := ascii "shim.so" } false

def shimFrame : Frame := { name := ascii "0x1", module := ascii "/opt/shim.so", unresolved := true }

def appFrame : Frame := { name := ascii "main", module := ascii "/opt/app" }

theorem collapsesBands_withCaller : shimBand.CollapsesBands [shimFrame, appFrame] := by
  refine (shimBand.collapsesBands_iff rfl _).mpr fun _ => ⟨1, by decide, fun h => ?_⟩
  obtain ⟨f, hf, hunresolved⟩ := h.exists_unresolved
  obtain rfl : appFrame = f := Option.some.inj hf
  cases hunresolved

/-- The frame of a stack that is all shim is overwritten by the marker. -/
theorem not_collapsesBands : ¬shimBand.CollapsesBands [shimFrame] := by
  intro h
  have hmarked : ∀ k < [shimFrame].length, shimBand.Marked [shimFrame] k := fun k hk => by
    obtain rfl : k = 0 := Nat.lt_one_iff.mp hk
    exact .of_anchor (by decide +kernel)
  have heq : shimBand.collapse [shimFrame] = ([shimFrame], 0) := h.untouched hmarked
  exact absurd heq (by decide +kernel)

end PerfAgent.Gpuprobe.Instrumentation
