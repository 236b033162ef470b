import Mathlib.Data.Set.Card
import Mathlib.Order.Interval.Finset.Nat
import Mathlib.Tactic.Linarith
import Mathlib.Tactic.Ring

/-!
# The ticks of the telemetry collector

The loop of `Collector.Run` in `gputelemetry/collector.go`, from the initial sample on.  A tick is due each interval
after the start.  A pass samples once, however late it is, and counts the ticks it is late by; the last count is made
when the capture ends.  What the devices answer has no part in it.
-/

namespace PerfAgent.Gputelemetry

open List

/-- `Kind` of what is published. -/
inductive Kind where
  | initial
  | sample
  | final
  | summary
deriving DecidableEq

structure Published where
  kind : Kind
  startedAt : Int
  missedTicks : Nat
  endedAt : Option Int := none

structure Loop where
  next : Int
  missed : Nat := 0
  published : List Published

namespace Loop

def sample (started : Int) (kind : Kind) (l : Loop) : Loop :=
  { l with published := l.published ++ [{ kind := kind, startedAt := started, missedTicks := l.missed }] }

def pass (interval started now : Int) (l : Loop) : Loop :=
  let late := (now - l.next).tdiv interval
  sample started .sample { l with
    next := l.next + (max 0 late + 1) * interval
    missed := l.missed + (max 0 late).toNat }

def finish (interval started ended : Int) (l : Loop) : Loop :=
  sample started .final { l with
    missed := if l.next < ended then l.missed + ((ended - l.next - 1).tdiv interval).toNat + 1 else l.missed }

def summarize (started ended : Int) (l : Loop) : Loop :=
  { l with published := l.published ++
      [{ kind := .summary, startedAt := started, missedTicks := l.missed, endedAt := some ended }] }

end Loop

/-- When the capture has ended: its deadline, if it is earlier than the cancellation. -/
def endedAt (cancelledAt : Int) : Option Int → Int
  | some deadline => if deadline < cancelledAt then deadline else cancelledAt
  | none => cancelledAt

/-- The exporters get the last of what is published; an error of theirs ends the run. -/
def publish {ε : Type} (exporters : List Published → Option ε) (l : Loop) : Except ε Loop :=
  match exporters l.published with
  | some err => .error err
  | none => .ok l

def start (interval started : Int) : Loop :=
  Loop.sample started .initial { next := started + interval, published := [] }

def run {ε : Type} (exporters : List Published → Option ε) (interval started cancelledAt : Int)
    (deadline : Option Int) (readings : List Int) : Except ε Loop := do
  let ended := endedAt cancelledAt deadline
  let l ← publish exporters (start interval started)
  let l ← readings.foldlM (fun l now => publish exporters (l.pass interval started now)) l
  let l ← publish exporters (l.finish interval started ended)
  publish exporters (l.summarize started ended)

def passes (interval started : Int) (readings : List Int) : Loop :=
  readings.foldl (fun l now => l.pass interval started now) (start interval started)

/-- Each reading is taken when its tick is due, and before the end. -/
def Timed (interval started ended : Int) (readings : List Int) : Prop :=
  ∀ before now, before ++ [now] <+: readings → (passes interval started before).next ≤ now ∧ now < ended

def Loop.samples (l : Loop) : Nat := l.published.countP (·.kind = .sample)

/-- The ticks before the next one are accounted for, and lie before the end. -/
structure Loop.OnTime (interval started ended : Int) (l : Loop) : Prop where
  next_eq : l.next = started + (l.samples + l.missed + 1 : Nat) * interval
  before : l.samples + l.missed ≠ 0 → started + (l.samples + l.missed : Nat) * interval < ended

variable {interval started ended now : Int} {l : Loop}

theorem late_spec (hinterval : 0 < interval) (hdue : l.next ≤ now) :
    ∃ k : Nat, (now - l.next).tdiv interval = k ∧ l.next + k * interval ≤ now ∧ now < l.next + (k + 1) * interval := by
  have hnonneg : 0 ≤ now - l.next := Int.sub_nonneg_of_le hdue
  obtain ⟨k, hk⟩ := Int.eq_ofNat_of_zero_le (Int.tdiv_nonneg hnonneg hinterval.le)
  have hsum := Int.mul_tdiv_add_tmod (now - l.next) interval
  have hrest := Int.tmod_nonneg interval hnonneg
  have hlt := Int.tmod_lt_of_pos (now - l.next) hinterval
  rw [hk] at hsum
  refine ⟨k, hk, ?_, ?_⟩ <;> linarith

/-- A pass: the due tick is sampled, those up to the reading are missed, and the next one is after it. -/
theorem pass_spec (started : Int) (hinterval : 0 < interval) (hdue : l.next ≤ now) :
    ∃ k : Nat, (l.pass interval started now).next = l.next + (k + 1) * interval ∧
      (l.pass interval started now).missed = l.missed + k ∧
      (l.pass interval started now).samples = l.samples + 1 ∧
      l.next + k * interval ≤ now ∧ now < l.next + (k + 1) * interval := by
  obtain ⟨k, hk, hle, hlt⟩ := late_spec hinterval hdue
  have hmax : max 0 (k : Int) = k := max_eq_right (Int.natCast_nonneg k)
  refine ⟨k, ?_, ?_, ?_, hle, hlt⟩
  · show l.next + (max 0 ((now - l.next).tdiv interval) + 1) * interval = _
    rw [hk, hmax]
  · show l.missed + (max 0 ((now - l.next).tdiv interval)).toNat = _
    rw [hk, hmax, Int.toNat_natCast]
  · simp [Loop.pass, Loop.sample, Loop.samples, countP_append]

theorem Loop.OnTime.pass (hinterval : 0 < interval) (h : l.OnTime interval started ended) (hdue : l.next ≤ now)
    (hend : now < ended) : (l.pass interval started now).OnTime interval started ended := by
  obtain ⟨k, hnext, hmissed, hsamples, hle, -⟩ := pass_spec started hinterval hdue
  have hdone := h.next_eq
  refine ⟨?_, fun _ => ?_⟩
  · rw [hnext, hmissed, hsamples, hdone]
    push_cast
    ring
  · rw [hmissed, hsamples]
    rw [hdone] at hle
    push_cast at hle ⊢
    linarith

theorem start_onTime (interval started ended : Int) : (start interval started).OnTime interval started ended :=
  ⟨by simp [start, Loop.sample, Loop.samples], fun h => (h rfl).elim⟩

theorem passes_concat (before : List Int) :
    passes interval started (before ++ [now]) = (passes interval started before).pass interval started now :=
  foldl_append ..

theorem passes_onTime (hinterval : 0 < interval) {readings : List Int}
    (htimed : Timed interval started ended readings) :
    (passes interval started readings).OnTime interval started ended := by
  induction readings using List.reverseRecOn with
  | nil => exact start_onTime interval started ended
  | append_singleton before now ih =>
    obtain ⟨hdue, hend⟩ := htimed before now (prefix_refl _)
    rw [passes_concat]
    exact (ih fun b n hb => htimed b n (hb.trans (prefix_append ..))).pass hinterval hdue hend

theorem Loop.OnTime.finish (hinterval : 0 < interval) (h : l.OnTime interval started ended) :
    {k : Nat | 1 ≤ k ∧ started + k * interval < ended} =
      Set.Icc 1 (l.samples + (l.finish interval started ended).missed) := by
  obtain ⟨n, hn, hbefore, hafter⟩ : ∃ n, l.samples + (l.finish interval started ended).missed = n ∧
      (n ≠ 0 → started + n * interval < ended) ∧ ended ≤ started + (n + 1) * interval := by
    refine ⟨_, rfl, ?_⟩
    have hdone := h.next_eq
    dsimp only [Loop.finish, Loop.sample]
    split
    · next hlt =>
      obtain ⟨k, hk, hle, hlast⟩ := late_spec hinterval (by omega : l.next ≤ ended - 1)
      rw [sub_right_comm, hk, Int.toNat_natCast]
      rw [hdone] at hle hlast
      push_cast at hle hlast ⊢
      exact ⟨fun _ => by linarith, by linarith⟩
    · next hge =>
      refine ⟨h.before, ?_⟩
      rw [hdone] at hge
      push_cast at hge ⊢
      linarith
  rw [hn]
  ext k
  simp only [Set.mem_ofPred_eq, Set.mem_Icc]
  refine and_congr_right fun hpos => ⟨fun hk => ?_, fun hk => ?_⟩
  · by_contra hgt
    have hmul := mul_le_mul_of_nonneg_right (by omega : (n : Int) + 1 ≤ k) hinterval.le
    linarith
  · have hmul := mul_le_mul_of_nonneg_right (by omega : (k : Int) ≤ n) hinterval.le
    have := hbefore (by omega)
    linarith

/-! ## A whole run -/

section Run

variable {ε : Type} {exporters : List Published → Option ε} {cancelledAt : Int} {deadline : Option Int}
  {readings : List Int} {r : Loop}

theorem publish_bind {f : Loop → Except ε Loop} (h : (publish exporters l >>= f) = .ok r) : f l = .ok r := by
  unfold publish at h
  split at h
  · cases h
  · exact h

theorem publish_foldlM {f : Loop → Except ε Loop}
    (h : (readings.foldlM (fun l now => publish exporters (l.pass interval started now)) l >>= f) = .ok r) :
    f (readings.foldl (fun l now => l.pass interval started now) l) = .ok r := by
  induction readings generalizing l with
  | nil => exact h
  | cons now readings ih =>
    rw [foldlM_cons, bind_assoc] at h
    exact ih (publish_bind h)

theorem run_eq_ok (h : run exporters interval started cancelledAt deadline readings = .ok r) :
    let ended := endedAt cancelledAt deadline
    r = ((passes interval started readings).finish interval started ended).summarize started ended := by
  have hlast := publish_bind (publish_foldlM (publish_bind h))
  rw [← bind_pure (publish _ _)] at hlast
  cases publish_bind hlast
  rfl

/-- After each pass the next tick is a multiple of the interval after the start and lies after the reading, and no
step is longer than the interval and the run.  At the end the samples and the ticks that the summary calls missed
are the ticks due before the end. -/
theorem run_accounts (hinterval : 0 < interval)
    (htimed : Timed interval started (endedAt cancelledAt deadline) readings) :
    (∀ before now, before ++ [now] <+: readings →
      let l := passes interval started before
      let l' := passes interval started (before ++ [now])
      (∃ k : Nat, l'.next = started + k * interval) ∧ now < l'.next ∧ l'.next - l.next ≤ max interval (now - started)) ∧
      ∀ r, run exporters interval started cancelledAt deadline readings = .ok r →
        ∃ summary, r.published.getLast? = some summary ∧ summary.kind = .summary ∧
          {k : Nat | 1 ≤ k ∧ started + k * interval < endedAt cancelledAt deadline}.ncard =
            r.samples + summary.missedTicks := by
  refine ⟨fun before now hprefix => ?_, fun r hr => ?_⟩
  · have hpast := passes_onTime hinterval fun b n hb => htimed b n (hb.trans ((prefix_append ..).trans hprefix))
    obtain ⟨hdue, hend⟩ := htimed before now hprefix
    obtain ⟨k, hnext, -, -, hle, hlt⟩ := pass_spec started hinterval hdue
    rw [passes_concat]
    refine ⟨⟨_, (hpast.pass hinterval hdue hend).next_eq⟩, by rw [hnext]; exact hlt, ?_⟩
    rw [hnext]
    obtain rfl | hpos := Nat.eq_zero_or_pos k
    · exact le_max_of_le_left (by simp)
    · refine le_max_of_le_right ?_
      have hdone := hpast.next_eq
      have := mul_nonneg (Int.natCast_nonneg ((passes interval started before).samples +
        (passes interval started before).missed)) hinterval.le
      push_cast at hdone this
      linarith
  · have hlast := run_eq_ok hr
    refine ⟨_, by rw [hlast]; exact getLast?_concat, rfl, ?_⟩
    rw [(passes_onTime hinterval htimed).finish hinterval, Set.ncard_eq_toFinset_card', Set.toFinset_Icc,
      Nat.card_Icc, Nat.add_sub_cancel, hlast]
    congr 1
    simp [Loop.summarize, Loop.finish, Loop.sample, Loop.samples, countP_append]

/-- A late second pass, and a capture that its deadline ends between two ticks. -/
theorem run_accounts_late : Timed 10 0 (endedAt 80 (some 75)) [12, 45] ∧
      ∃ summary, (((passes 10 0 [12, 45]).finish 10 0 75).summarize 0 75).published.getLast? = some summary ∧
        summary.kind = .summary ∧ {k : Nat | 1 ≤ k ∧ 0 + (k : Int) * 10 < endedAt 80 (some 75)}.ncard =
          2 + summary.missedTicks := by
  have htimed : Timed 10 0 (endedAt 80 (some 75)) [12, 45] := by
    intro before now hprefix
    obtain ⟨t, ht⟩ := hprefix
    match before, ht with
    | [], ht => cases ht; decide
    | [_], ht => cases ht; decide
    | _ :: _ :: before, ht => simp at ht
  refine ⟨htimed, ?_⟩
  exact (run_accounts (by decide) htimed).2 _ (rfl : run (fun _ => (none : Option Unit)) 10 0 80 (some 75) [12, 45] = _)

end Run

end PerfAgent.Gputelemetry
