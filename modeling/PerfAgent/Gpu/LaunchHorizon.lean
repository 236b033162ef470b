import PerfAgent.Gpu.LaunchCacheAccounting

/-!
# The horizon of the launch cache

The horizon pass takes entries from the front of the queue while they lag, and stops at the first
one that does not.  The queue is in the order of the `Put`s, the lag is one of timestamps, so a
launch that arrives late stays behind one that is fresh.
-/

namespace PerfAgent.Gpu

open List

/-! ## The ends of a list -/

section Ends

variable {α : Type} {a p : α → Bool} {q : List α} {n : Nat}

theorem forall_split_cons {P : List α → α → Prop} {y : α} :
    (∀ q₁ x q₂, y :: q = q₁ ++ x :: q₂ → P q₁ x) ↔ P [] y ∧ ∀ q₁ x q₂, q = q₁ ++ x :: q₂ → P (y :: q₁) x := by
  constructor
  · exact fun h => ⟨h [] y q rfl, fun q₁ x q₂ hq => h (y :: q₁) x q₂ (congrArg (y :: ·) hq)⟩
  · rintro ⟨hy, hq⟩ q₁ x q₂ h
    cases q₁ with
    | nil =>
      cases h
      exact hy
    | cons z q₁ =>
      obtain ⟨rfl, htail⟩ := List.cons.inj h
      exact hq q₁ x q₂ htail

theorem forall_mem_iff_split {P : α → Prop} : (∀ x ∈ q, P x) ↔ ∀ q₁ x q₂, q = q₁ ++ x :: q₂ → P x := by
  constructor
  · rintro h q₁ x q₂ rfl
    exact h x (mem_append_right _ (mem_cons_self ..))
  · intro h x hx
    obtain ⟨q₁, q₂, hq⟩ := append_of_mem hx
    exact h q₁ x q₂ hq

theorem forall_dropWhile_iff : (∀ x ∈ q.dropWhile a, p x = false) ↔
      ∀ q₁ x q₂, q = q₁ ++ x :: q₂ → p x = true → ∀ y ∈ q₁ ++ [x], a y = true := by
  induction q with
  | nil => exact ⟨fun _ q₁ x q₂ h => absurd h.symm (by simp), fun _ x hx => absurd hx not_mem_nil⟩
  | cons y q ih =>
    rw [forall_split_cons]
    cases hy : a y with
    | true =>
      rw [dropWhile_cons_of_pos hy, ih]
      simp only [cons_append, nil_append, forall_mem_cons, hy, true_and, not_mem_nil, IsEmpty.forall_iff, implies_true]
    | false =>
      rw [dropWhile_cons_of_neg (by rw [hy]; exact Bool.false_ne_true), forall_mem_cons, forall_mem_iff_split]
      simp only [cons_append, nil_append, forall_mem_cons, hy, Bool.false_eq_true, false_and,
        imp_false, Bool.not_eq_true]

/-- What is left of a list after the walk, and after the first elements have gone that are too many. -/
theorem forall_left_iff (hlen : q.length ≤ n + 1) :
    (∀ x ∈ (q.dropWhile a).drop ((q.dropWhile a).length - n), p x = false) ↔ ∀ q₁ x q₂, q = q₁ ++ x :: q₂ → p x = true →
        (∀ y ∈ q₁ ++ [x], a y = true) ∨ (q₁ = [] ∧ a x = false ∧ n < q.length) := by
  cases q with
  | nil => exact ⟨fun _ q₁ x q₂ h => absurd h.symm (by simp), fun _ x hx => absurd hx (by simp)⟩
  | cons y q =>
    cases hy : a y with
    | true =>
      have hle : (q.dropWhile a).length ≤ n :=
        (dropWhile_sublist a).length_le.trans (Nat.le_of_succ_le_succ hlen)
      rw [dropWhile_cons_of_pos hy, Nat.sub_eq_zero_of_le hle, drop_zero, forall_dropWhile_iff, forall_split_cons]
      simp only [cons_append, nil_append, forall_mem_cons, hy, true_and, not_mem_nil,
        IsEmpty.forall_iff, implies_true, true_or, cons_ne_nil, false_and, or_false]
    | false =>
      rw [dropWhile_cons_of_neg (by rw [hy]; exact Bool.false_ne_true), forall_split_cons]
      simp only [cons_append, nil_append, forall_mem_cons, hy, Bool.false_eq_true, false_and,
        false_or, true_and, cons_ne_nil, imp_false, Bool.not_eq_true]
      rcases Nat.lt_or_eq_of_le hlen with hlt | heq
      · have hn : (y :: q).length ≤ n := Nat.le_of_lt_succ hlt
        rw [Nat.sub_eq_zero_of_le hn, drop_zero, forall_mem_cons, forall_mem_iff_split]
        simp only [Nat.not_lt.mpr hn, imp_false, Bool.not_eq_true]
      · have hone : (y :: q).length - n = 1 := by omega
        have hlt : n < (y :: q).length := by omega
        rw [hone, drop_one, tail_cons, forall_mem_iff_split]
        simp only [hlt, implies_true, true_and]

/-- The walk takes every element that satisfies `a` exactly if none of them stands behind another one. -/
theorem pairwise_iff_split : (q.Pairwise fun x y => a y = true → a x = true) ↔
      ∀ q₁ x q₂, q = q₁ ++ x :: q₂ → a x = true → ∀ y ∈ q₁ ++ [x], a y = true := by
  induction q with
  | nil => exact ⟨fun _ q₁ x q₂ h => absurd h.symm (by simp), fun _ => .nil⟩
  | cons y q ih =>
    rw [pairwise_cons, forall_split_cons, ih, forall_mem_iff_split]
    constructor
    · rintro ⟨hy, hq⟩
      refine ⟨fun hay => by simpa using hay, fun q₁ x q₂ h hx => ?_⟩
      exact forall_mem_cons.mpr ⟨hy q₁ x q₂ h hx, hq q₁ x q₂ h hx⟩
    · rintro ⟨-, hq⟩
      exact ⟨fun q₁ x q₂ h hx => (forall_mem_cons.mp (hq q₁ x q₂ h hx)).1,
        fun q₁ x q₂ h hx => (forall_mem_cons.mp (hq q₁ x q₂ h hx)).2⟩

end Ends

namespace LaunchCache

/-! ## One `Put` -/

def lags (newest horizonNs : Nat) (l : GPUKernelLaunch) : Bool := horizonNs < newest - l.timeNs

/-- The live launches in the order of their `Put`s. -/
def launches (c : LaunchCache) : List GPUKernelLaunch := c.store.queue.map fun e => e.2.launch

/-- The live launches and the new one, which replaces that of its correlation. -/
def launchesWith (c : LaunchCache) (l : GPUKernelLaunch) : List GPUKernelLaunch :=
  ((c.store.queue.filter fun e => e.1 ≠ l.correlation).map fun e => e.2.launch) ++ [l]

/-- The horizon anchor that a `Put` of `l` measures from. -/
def anchorWith (c : LaunchCache) (l : GPUKernelLaunch) : Nat := (c.observeTimestampLocked l.timeNs).newestNs

theorem newestNs_putEntry (c : LaunchCache) (l : GPUKernelLaunch) : (c.putEntry l).newestNs = c.anchorWith l := rfl

theorem newestNs_put (c : LaunchCache) (l : GPUKernelLaunch) : (c.put l).newestNs = c.anchorWith l :=
  newestNs_putEntry c l

variable (cfg : LaunchCacheConfig) (ops : List Op)

section Put

variable {c : LaunchCache} (h : c.store.WF) (l : GPUKernelLaunch)
include h

theorem launches_putEntry : (c.putEntry l).launches = c.launchesWith l := by
  unfold launches launchesWith
  rw [queue_putEntry h l, map_append]
  rfl

theorem mem_launches {l : GPUKernelLaunch} :
    l ∈ c.launches ↔ ∃ id e, c.store.byKey.find? id = some e ∧ e.launch = l := by
  unfold launches
  rw [mem_map]
  constructor
  · rintro ⟨e, he, rfl⟩
    exact ⟨e.1, e.2, h.mem_queue.mp he, rfl⟩
  · rintro ⟨id, e, he, rfl⟩
    exact ⟨(id, e), h.mem_queue.mpr he, rfl⟩

theorem length_launchesWith_le (hle : c.live ≤ c.capacity) : (c.launchesWith l).length ≤ c.capacity + 1 := by
  unfold launchesWith
  rw [List.length_append, length_map]
  refine Nat.succ_le_succ ((length_filter_le _ _).trans ?_)
  rw [h.length_queue]
  exact hle

theorem launches_put (hz : 0 < c.horizonNs) : (c.put l).launches =
      let left := (c.launchesWith l).dropWhile (lags (c.anchorWith l) c.horizonNs)
      left.drop (left.length - c.capacity) := by
  obtain ⟨-, -, hq⟩ := (wf_putEntry h l).queue_evict (c.putEntry l).capacity (c.putEntry l).newestNs
    (c.putEntry l).horizonNs
  have hwalk : (FIFOStore.unaged (c.putEntry l).newestNs (c.putEntry l).horizonNs
      (c.putEntry l).store.queue).map (fun e => e.2.launch) =
        (c.launchesWith l).dropWhile (lags (c.anchorWith l) c.horizonNs) := by
    unfold FIFOStore.unaged
    rw [horizonNs_putEntry, if_pos hz, newestNs_putEntry, ← launches_putEntry h l]
    unfold launches
    rw [dropWhile_map]
    rfl
  change (FIFOStore.evict _ _ _ _).1.queue.map _ = _
  dsimp only
  rw [hq, map_drop, ← hwalk, length_map, capacity_putEntry]

/-- After a `Put` no live launch lags `newest` exactly if each one that does is taken by the walk, or is
the oldest, and one too many. -/
theorem put_within_iff (hle : c.live ≤ c.capacity) (hz : 0 < c.horizonNs) (newest : Nat) :
    (∀ x ∈ (c.put l).launches, lags newest c.horizonNs x = false) ↔
      ∀ q₁ x q₂, c.launchesWith l = q₁ ++ x :: q₂ → lags newest c.horizonNs x = true →
        (∀ y ∈ q₁ ++ [x], lags (c.anchorWith l) c.horizonNs y = true) ∨
          (q₁ = [] ∧ lags (c.anchorWith l) c.horizonNs x = false ∧ c.capacity < (c.launchesWith l).length) := by
  rw [launches_put h l hz]
  exact forall_left_iff (length_launchesWith_le h l hle)

/-- After a `Put` no live launch lags the anchor exactly if none that does stands behind a fresh one. -/
theorem put_within_anchor_iff (hle : c.live ≤ c.capacity) (hz : 0 < c.horizonNs) :
    (∀ x ∈ (c.put l).launches, lags (c.put l).newestNs c.horizonNs x = false) ↔ (c.launchesWith l).Pairwise fun x y =>
        lags (c.anchorWith l) c.horizonNs y = true → lags (c.anchorWith l) c.horizonNs x = true := by
  rw [newestNs_put, put_within_iff h l hle hz, pairwise_iff_split]
  constructor
  · intro hall q₁ x q₂ hq hx
    refine (hall q₁ x q₂ hq hx).resolve_right fun hone => ?_
    rw [hone.2.1] at hx
    cases hx
  · exact fun hall q₁ x q₂ hq hx => .inl (hall q₁ x q₂ hq hx)

end Put

/-! ## Any sequence of calls -/

/-- The newest timestamp of the `Put`s. -/
def newestSeen : Nat :=
  ops.foldl (fun newest op => match op with | .put l => max newest l.timeNs | _ => newest) 0

/-- A `Put` of the calls, with the calls before it. -/
def PutOf (before : List Op) (l : GPUKernelLaunch) : Prop := before ++ [.put l] <+: ops

/-- After each `Put` no live launch lags the newest timestamp by more than the horizon; the newest one is
taken from the calls so far. -/
def WithinHorizon (newest : List Op → Nat) (ops : List Op) : Prop :=
  ∀ before l, PutOf ops before l →
    ∀ id e, ((newLaunchCache cfg).run (before ++ [.put l])).store.byKey.find? id = some e →
      e.launch.timeNs + cfg.horizonNs < newest (before ++ [.put l]) → False

theorem lags_iff {newest horizonNs : Nat} {l : GPUKernelLaunch} :
    lags newest horizonNs l = true ↔ l.timeNs + horizonNs < newest := by
  unfold lags
  rw [decide_eq_true_iff]
  omega

theorem horizonNs_run (ops : List Op) : ((newLaunchCache cfg).run ops).horizonNs = cfg.horizonNs := by
  induction ops using List.reverseRecOn with
  | nil => rfl
  | append_singleton ops op ih =>
    rw [run_snoc, ← ih]
    cases op <;> simp [apply, get]

theorem within_iff {cfg : LaunchCacheConfig} {newest : List Op → Nat} {ops : List Op} :
    WithinHorizon cfg newest ops ↔ ∀ before l, PutOf ops before l →
      ∀ x ∈ (((newLaunchCache cfg).run before).put l).launches,
        lags (newest (before ++ [.put l])) cfg.horizonNs x = false := by
  have hput : ∀ before l, (newLaunchCache cfg).run (before ++ [.put l]) = ((newLaunchCache cfg).run before).put l :=
    fun before l => run_snoc ..
  constructor
  · intro h before l hpre x hx
    obtain ⟨id, e, he, rfl⟩ := (mem_launches (wf_put (tracks_run cfg before).wf l)).mp hx
    rw [← Bool.not_eq_true, lags_iff]
    exact h before l hpre id e (hput before l ▸ he)
  · intro h before l hpre id e he hlag
    rw [hput] at he
    have hmem := (mem_launches (wf_put (tracks_run cfg before).wf l)).mpr ⟨id, e, he, rfl⟩
    have hfalse := h before l hpre _ hmem
    rw [lags_iff.mpr hlag] at hfalse
    cases hfalse

/-- The anchor is the newest timestamp that was not refused as a jump. -/
def anchor (ops : List Op) : Nat := ((newLaunchCache cfg).run ops).newestNs

/-- At each `Put` the launches that lag the anchor stand in front of those that do not: the live ones in the
order of their `Put`s, and the new one, which replaces that of its correlation. -/
def LateInFront (ops : List Op) : Prop :=
  ∀ before l, PutOf ops before l → (((newLaunchCache cfg).run before).launchesWith l).Pairwise fun x y =>
      lags (((newLaunchCache cfg).run before).anchorWith l) cfg.horizonNs y = true →
        lags (((newLaunchCache cfg).run before).anchorWith l) cfg.horizonNs x = true

/-- At each `Put`, a launch that lags the newest timestamp of all lags the anchor, as do all in front of it;
or it is fresh to the anchor, and the oldest of more launches than the cache may hold. -/
def LateTaken (ops : List Op) : Prop :=
  ∀ before l, PutOf ops before l → ∀ q₁ x q₂, ((newLaunchCache cfg).run before).launchesWith l = q₁ ++ x :: q₂ →
      lags (newestSeen (before ++ [.put l])) cfg.horizonNs x = true →
      (∀ y ∈ q₁ ++ [x], lags (((newLaunchCache cfg).run before).anchorWith l) cfg.horizonNs y = true) ∨
        (q₁ = [] ∧ lags (((newLaunchCache cfg).run before).anchorWith l) cfg.horizonNs x = false ∧
          (newLaunchCache cfg).capacity < (((newLaunchCache cfg).run before).launchesWith l).length)

/-- The horizon holds exactly as far as the order of the `Put`s follows that of the timestamps: against
the anchor, if and only if at each `Put` the lagging launches stand in front of the fresh ones; against the
newest timestamp of all, refused jumps among them, if and only if each launch that lags it is taken. -/
theorem horizon_iff (cfg : LaunchCacheConfig) (hz : 0 < cfg.horizonNs) (ops : List Op) :
    (WithinHorizon cfg (anchor cfg) ops ↔ LateInFront cfg ops) ∧
      (WithinHorizon cfg newestSeen ops ↔ LateTaken cfg ops) := by
  rw [within_iff, within_iff]
  have htracks := tracks_run cfg
  have hhorizon := horizonNs_run cfg
  refine ⟨forall₂_congr fun before l => imp_congr_right fun _ => ?_,
    forall₂_congr fun before l => imp_congr_right fun _ => ?_⟩
  · have hanchor : anchor cfg (before ++ [.put l]) = (((newLaunchCache cfg).run before).put l).newestNs :=
      congrArg newestNs (run_snoc ..)
    rw [hanchor, ← hhorizon before]
    exact put_within_anchor_iff (htracks before).wf l (htracks before).live_le (hhorizon before ▸ hz)
  · rw [← hhorizon before, ← capacity_run _ before]
    exact put_within_iff (htracks before).wf l (htracks before).live_le (hhorizon before ▸ hz) _

def timed (value : String) (timeNs : Nat) : GPUKernelLaunch :=
  { correlation := { pid := 1, value := value }, timeNs := timeNs }

theorem horizon_iff_inOrder :
    WithinHorizon { capacity := 100, horizonNs := 50 } (anchor { capacity := 100, horizonNs := 50 })
      [.put (timed "a" 10), .put (timed "b" 100)] := by
  refine ((horizon_iff { capacity := 100, horizonNs := 50 } (by decide) _).1).mpr fun before l hpre => ?_
  obtain ⟨after, hops⟩ := hpre
  cases before with
  | nil =>
    cases hops
    decide +kernel
  | cons op before =>
    cases before with
    | nil =>
      cases hops
      decide +kernel
    | cons op' before => exact absurd hops (by simp)

/-- A launch that arrives late stays behind a fresh one. -/
theorem not_withinHorizon :
    ¬ WithinHorizon { capacity := 100, horizonNs := 50 } (anchor { capacity := 100, horizonNs := 50 })
        [.put (timed "a" 100), .put (timed "b" 10)] ∧
      ¬ WithinHorizon { capacity := 100, horizonNs := 50 } newestSeen [.put (timed "a" 100), .put (timed "b" 10)] := by
  have hlive : ((newLaunchCache { capacity := 100, horizonNs := 50 }).run
      ([.put (timed "a" 100)] ++ [.put (timed "b" 10)])).store.byKey.find? { pid := 1, value := "b" } =
        some { launch := timed "b" 10, seq := 2 } := by decide +kernel
  constructor
  · exact fun h => h [.put (timed "a" 100)] (timed "b" 10) (prefix_refl _) _ _ hlive (by decide +kernel)
  · exact fun h => h [.put (timed "a" 100)] (timed "b" 10) (prefix_refl _) _ _ hlive (by decide +kernel)

end LaunchCache

end PerfAgent.Gpu
