import Mathlib.Data.Rat.Floor
import PerfAgent.Lib.Machine
import PerfAgent.Shim.Burst

/-!
# The duty ceiling

The settings of the duty cycle and its two gap functions (`shim/core/burst.h`), with the
ratios as exact rationals, and what they make of the ceiling: of every cycle, that is a burst
and the time until the next one starts, at most `max_duty` may be the burst.

The gap that the ceiling asks for after a burst is bounded by `max_gap_ns` and cut down to
whole nanoseconds, so the ceiling holds after a burst whose gap is whole and within that
bound (`GapFits`), and only there: any other length breaks it in the run that opens, closes
and opens again as soon as it may.
-/

namespace PerfAgent.Shim

variable {durNs : Nat}

structure DutyConfig where
  burstNs : Nat := 50000000
  targetRate : ℚ := 100
  maxDuty : ℚ := 1 / 20
  maxGapNs : Nat := 10000000000
  gain : ℚ := 1 / 2

namespace DutyConfig

variable (cfg : DutyConfig)

def duty : ℚ :=
  let duty := if ¬0 < cfg.maxDuty then 1 / 1000 else cfg.maxDuty
  if duty > 1 then 1 else duty

def owedGap (durNs : Nat) : ℚ := durNs * (1 / cfg.duty - 1)

def burstMinGapForNs (durNs : Nat) : Nat :=
  let g := cfg.owedGap durNs
  if ¬g > 0 then 0
  else if g ≥ cfg.maxGapNs then cfg.maxGapNs
  else ⌊g⌋₊

def burstMinGapNs : Nat := cfg.burstMinGapForNs cfg.burstNs

/-- The loop.  A target of zero makes the ratio infinite, or no number at all when there were
no pairs; those two cases are written out. -/
def burstNextGapNs (prevGapNs pairs elapsedNs : Nat) : Nat :=
  let lo := cfg.burstMinGapNs
  let hi := if cfg.maxGapNs > lo then cfg.maxGapNs else lo
  let gain := if ¬cfg.gain > 0 then 0 else cfg.gain
  let gain := if gain > 1 then 1 else gain
  let clamp (gap : ℚ) : Nat := if ¬gap > lo then lo else if gap ≥ hi then hi else ⌊gap⌋₊
  if elapsedNs = 0 then clamp prevGapNs
  else if cfg.targetRate = 0 ∧ pairs ≠ 0 then
    -- an infinite gap, unless the gain of zero makes it no number
    if gain > 0 then hi else lo
  else
    let observedRate : ℚ := pairs * 1000000000 / elapsedNs
    let ratio := if cfg.targetRate = 0 then 0 else observedRate / cfg.targetRate
    let cycle := elapsedNs * ratio
    let rawGap := cycle - cfg.burstNs
    let rawGap := if ¬rawGap > 0 then 0 else rawGap
    clamp (prevGapNs + gain * (rawGap - prevGapNs))

def gaps : BurstGaps where
  burstNs := cfg.burstNs
  minGapForNs := cfg.burstMinGapForNs
  nextGapNs := cfg.burstNextGapNs

/-- The gap that the ceiling asks for can be granted: it is a whole number of nanoseconds and
within the bound.  A ceiling of zero or less cannot be met. -/
def GapFits (durNs : Nat) : Prop :=
  0 < cfg.maxDuty ∧ ⌊cfg.owedGap durNs⌋₊ = cfg.owedGap durNs ∧ cfg.owedGap durNs ≤ cfg.maxGapNs

instance (durNs : Nat) : Decidable (cfg.GapFits durNs) := inferInstanceAs (Decidable (_ ∧ _ ∧ _))

/-! ## The gap and the ceiling -/

theorem duty_pos : 0 < cfg.duty := by
  unfold duty
  dsimp only
  split_ifs with h₁ h₂ <;> linarith

theorem duty_le_one : cfg.duty ≤ 1 := by
  unfold duty
  dsimp only
  split_ifs with h₁ h₂ <;> linarith

theorem duty_le_maxDuty (h : 0 < cfg.maxDuty) : cfg.duty ≤ cfg.maxDuty := by
  unfold duty
  rw [if_neg (not_not_intro h)]
  dsimp only
  split_ifs with h₂ <;> linarith

theorem owedGap_nonneg (durNs : Nat) : 0 ≤ cfg.owedGap durNs := by
  refine mul_nonneg (Nat.cast_nonneg _) (sub_nonneg.mpr ?_)
  exact (one_le_div cfg.duty_pos).mpr cfg.duty_le_one

theorem owedGap_mono {durNs' : Nat} (h : durNs ≤ durNs') : cfg.owedGap durNs ≤ cfg.owedGap durNs' := by
  refine mul_le_mul_of_nonneg_right (Nat.cast_le.mpr h) (sub_nonneg.mpr ?_)
  exact (one_le_div cfg.duty_pos).mpr cfg.duty_le_one

theorem burstMinGapForNs_eq (durNs : Nat) : cfg.burstMinGapForNs durNs = min ⌊cfg.owedGap durNs⌋₊ cfg.maxGapNs := by
  unfold burstMinGapForNs
  dsimp only
  by_cases h₁ : cfg.owedGap durNs > 0
  · rw [if_neg (not_not_intro h₁)]
    split
    · next h₂ => rw [min_eq_right (Nat.le_floor h₂)]
    · next h₂ => rw [min_eq_left (Nat.floor_le_of_le (not_le.mp h₂).le)]
  · rw [if_pos h₁, Nat.floor_eq_zero.mpr ((not_lt.mp h₁).trans_lt one_pos), Nat.zero_min]

theorem burstMinGapForNs_mono {durNs' : Nat} (h : durNs ≤ durNs') :
    cfg.burstMinGapForNs durNs ≤ cfg.burstMinGapForNs durNs' := by
  rw [burstMinGapForNs_eq, burstMinGapForNs_eq]
  exact min_le_min_right _ (Nat.floor_mono (cfg.owedGap_mono h))

theorem duty_mul (durNs : Nat) : cfg.duty * (durNs + cfg.owedGap durNs) = durNs := by
  have h := cfg.duty_pos.ne'
  unfold owedGap
  field_simp
  ring

theorem GapFits.granted {cfg : DutyConfig} (h : cfg.GapFits durNs) :
    (cfg.burstMinGapForNs durNs : ℚ) = cfg.owedGap durNs := by
  obtain ⟨-, hwhole, hle⟩ := h
  rw [burstMinGapForNs_eq, min_eq_left, hwhole]
  exact_mod_cast hwhole.trans_le hle

theorem GapFits.ceiling {cfg : DutyConfig} {gap : Nat} (h : cfg.GapFits durNs)
    (hgap : cfg.burstMinGapForNs durNs ≤ gap) : (durNs : ℚ) ≤ cfg.maxDuty * (durNs + gap) := by
  have hg : cfg.owedGap durNs ≤ gap := h.granted ▸ Nat.cast_le.mpr hgap
  calc (durNs : ℚ) = cfg.duty * (durNs + cfg.owedGap durNs) := (cfg.duty_mul durNs).symm
    _ ≤ cfg.duty * (durNs + gap) :=
        mul_le_mul_of_nonneg_left (add_le_add_right hg _) cfg.duty_pos.le
    _ ≤ cfg.maxDuty * (durNs + gap) := by
        refine mul_le_mul_of_nonneg_right (cfg.duty_le_maxDuty h.1) ?_
        positivity

theorem ceiling_broken (hpos : 0 < durNs) (h : ¬cfg.GapFits durNs) :
    cfg.maxDuty * (durNs + cfg.burstMinGapForNs durNs) < durNs := by
  have hdur : (0 : ℚ) < durNs := Nat.cast_pos.mpr hpos
  have hgap : (0 : ℚ) ≤ cfg.burstMinGapForNs durNs := Nat.cast_nonneg _
  by_cases hd : 0 < cfg.maxDuty
  · -- less than what is owed was granted
    have hlt : (cfg.burstMinGapForNs durNs : ℚ) < cfg.owedGap durNs := by
      rw [burstMinGapForNs_eq]
      by_contra hge
      refine h ⟨hd, le_antisymm (Nat.floor_le (cfg.owedGap_nonneg _)) ?_, ?_⟩
      · exact (not_lt.mp hge).trans (Nat.cast_le.mpr (min_le_left _ _))
      · exact (not_lt.mp hge).trans (Nat.cast_le.mpr (min_le_right _ _))
    have hone : cfg.maxDuty ≤ 1 := by
      by_contra hgt
      -- a ceiling above one is one, which asks for no gap
      have hduty : cfg.duty = 1 := by
        unfold duty
        rw [if_neg (not_not_intro hd)]
        exact if_pos (not_le.mp hgt)
      rw [owedGap, hduty] at hlt
      norm_num at hlt
      exact absurd hlt (not_lt.mpr hgap)
    have hduty : cfg.duty = cfg.maxDuty := by
      unfold duty
      rw [if_neg (not_not_intro hd)]
      exact if_neg (not_lt.mpr hone)
    calc cfg.maxDuty * (durNs + cfg.burstMinGapForNs durNs) < cfg.maxDuty * (durNs + cfg.owedGap durNs) :=
          mul_lt_mul_of_pos_left (add_lt_add_right hlt _) hd
      _ = durNs := hduty ▸ cfg.duty_mul durNs
  · exact (mul_nonpos_of_nonpos_of_nonneg (not_lt.mp hd) (add_nonneg hdur.le hgap)).trans_lt hdur

end DutyConfig

/-! ## Runs of the controller -/

inductive Attempt where
  | pollOpen (now : Nat) (graphs : Bool)
  | pollClose (now : Nat) (graphs : Bool)
  | poll (now : Nat) (graphs : Bool)
  | closed (pairsTotal : Nat)
  | shutdown (now : Nat)
  deriving DecidableEq

structure DutyCycle where
  burst : Nat
  gap : Nat
  deriving DecidableEq

/-- The controller, the last reading of the clock, the start and the end of the last burst
that has ended, and the cycles completed. -/
structure Cycling where
  controller : BurstController
  clock : Nat := 0
  last : Option (Nat × Nat) := none
  cycles : List DutyCycle := []

namespace Cycling

variable {cfg : DutyConfig}

def new (cfg : DutyConfig) : Cycling where
  controller := newBurstController cfg.gaps

/-- What the answer of a call means: a start completes a cycle, a stop ends a burst. -/
def answer (s : Cycling) (now : Nat) (r : BurstController × BurstAction) : Cycling where
  controller := r.1
  clock := now
  last := if r.2 = .stop then some (s.controller.burstStartNs, now) else s.last
  cycles :=
    if r.2 = .start then s.cycles ++ s.last.toList.map fun b => ⟨b.2 - b.1, now - b.2⟩
    else s.cycles

/-- One call.  The readings of the clock do not go back, and stay so far below the end of
their range that a gap can be added to them. -/
def step (cfg : DutyConfig) (s : Cycling) (a : Attempt) : Option Cycling :=
  let at_ (now : Nat) (r : BurstController × BurstAction) : Option Cycling :=
    if s.clock ≤ now ∧ now + cfg.maxGapNs < 2 ^ 64 then some (s.answer now r) else none
  match a with
  | .pollOpen now graphs => at_ now (s.controller.pollOpen now graphs)
  | .pollClose now graphs => at_ now (s.controller.pollClose cfg.gaps now graphs)
  | .poll now graphs => at_ now (s.controller.poll cfg.gaps now graphs)
  | .closed pairsTotal => some { s with controller := s.controller.closed cfg.gaps pairsTotal }
  | .shutdown now => at_ now (s.controller.shutdown cfg.gaps now)

/-- The burst that a call would end by the clock can be followed by the gap it is owed. -/
def Fits (cfg : DutyConfig) (s : Cycling) : Attempt → Prop
  | .pollClose now _ | .poll now _ =>
    s.controller.sampling = true → cfg.burstNs ≤ now - s.controller.burstStartNs →
      cfg.GapFits (now - s.controller.burstStartNs)
  | _ => True

end Cycling

namespace Cycling

open BurstController

variable {cfg : DutyConfig} {s s' : Cycling}

def WithinCeiling (cfg : DutyConfig) (c : DutyCycle) : Prop :=
  (c.burst : ℚ) ≤ cfg.maxDuty * (c.burst + c.gap)

/-- What is charged for the last burst `b`. -/
structure Charged (cfg : DutyConfig) (s : Cycling) (b : Nat × Nat) : Prop where
  ordered : b.1 ≤ b.2
  ended : b.2 ≤ s.clock
  started : s.controller.started = true
  fits : s.controller.refused = true ∨ cfg.GapFits (b.2 - b.1)
  endNs : s.controller.lastBurstEndNs = b.2
  dur : s.controller.lastBurstDur = b.2 - b.1
  due : b.2 + cfg.burstMinGapForNs (b.2 - b.1) ≤ s.controller.nextStartNs

structure Obeys (cfg : DutyConfig) (s : Cycling) : Prop where
  opened : s.controller.sampling = true → s.controller.started = true ∧ s.controller.burstStartNs ≤ s.clock
  charged : ∀ b, s.last = some b → Charged cfg s b
  cycles : ∀ c ∈ s.cycles, WithinCeiling cfg c

theorem obeys_new (cfg : DutyConfig) : Obeys cfg (new cfg) where
  opened := nofun
  charged := nofun
  cycles := nofun

theorem Obeys.answer (h : Obeys cfg s) {now : Nat} {r : BurstController × BurstAction}
    (hle : s.clock ≤ now) (hans : Answers cfg.gaps s.controller now r)
    (hstop : r.2 = .stop → r.1.refused = true ∨ cfg.GapFits (now - s.controller.burstStartNs)) :
    Obeys cfg (s.answer now r) := by
  cases hans with
  | none refused graphRefusals hr =>
    refine ⟨fun hs => (h.opened hs).imp_right hle.trans', fun b hb => ?_, h.cycles⟩
    obtain ⟨ho, he, hst, hf, hend, hdur, hdue⟩ := h.charged b hb
    exact ⟨ho, he.trans hle, hst, hf.imp_left hr, hend, hdur, hdue⟩
  | start refused graphRefusals firstStartNs hs hr hr' hdue =>
    refine ⟨fun _ => ⟨rfl, le_refl _⟩, fun b hb => ?_, fun c hc => ?_⟩
    · obtain ⟨ho, he, -, hf, hend, hdur, hnext⟩ := h.charged b hb
      exact ⟨ho, he.trans hle, rfl, hf.imp_left hr, hend, hdur, hnext⟩
    · rcases List.mem_append.mp hc with hc | hc
      · exact h.cycles c hc
      · -- the cycle that this start completes
        obtain ⟨b, hb, rfl⟩ := List.mem_map.mp hc
        obtain ⟨ho, he, hst, hf, -, -, hnext⟩ := h.charged b (Option.mem_toList.mp hb)
        have hfits : cfg.GapFits (b.2 - b.1) := by
          refine hf.resolve_left fun hrf => ?_
          rw [hr hrf] at hr'
          cases hr'
        have hnow := hnext.trans (hdue hst)
        refine hfits.ceiling ?_
        dsimp only
        omega
  | stop refused graphRefusals gap why hs hr hran hgap =>
    refine ⟨nofun, fun b hb => ?_, h.cycles⟩
    cases hb
    exact ⟨(h.opened hs).2.trans hle, le_refl _, (h.opened hs).1, hstop rfl, rfl, rfl, Nat.add_le_add_left hgap now⟩

theorem Obeys.closed (h : Obeys cfg s) (pairsTotal : Nat) :
    Obeys cfg { s with controller := s.controller.closed cfg.gaps pairsTotal } := by
  rcases closed_eq cfg.gaps s.controller pairsTotal with ⟨-, heq⟩ | ⟨pairs, gap, -, hgap, heq⟩
  · rw [heq]
    exact h
  · rw [heq]
    refine ⟨h.opened, fun b hb => ?_, h.cycles⟩
    obtain ⟨ho, he, hst, hf, hend, hdur, -⟩ := h.charged b hb
    refine ⟨ho, he, hst, hf, hend, hdur, ?_⟩
    rw [hdur] at hgap
    dsimp only
    rw [hend]
    exact Nat.add_le_add_left hgap b.2

theorem Obeys.fits (h : Obeys cfg s) {now : Nat} {r : BurstController × BurstAction}
    (hle : s.clock ≤ now) (hlt : now < 2 ^ 64) (hans : Answers cfg.gaps s.controller now r)
    (hfit : s.controller.sampling = true → cfg.burstNs ≤ now - s.controller.burstStartNs →
      cfg.GapFits (now - s.controller.burstStartNs)) (hr : r.2 = .stop) :
    r.1.refused = true ∨ cfg.GapFits (now - s.controller.burstStartNs) := by
  cases hans with
  | none => cases hr
  | start => cases hr
  | stop refused graphRefusals gap why hs _ hran _ =>
    split at hran
    · rw [elapsed_of_le ((h.opened hs).2.trans hle) hlt] at hran
      exact .inr (hfit hs hran)
    · exact .inl hran

theorem Obeys.step (h : Obeys cfg s) {a : Attempt} (hfit : s.Fits cfg a)
    (hs : s.step cfg a = some s') : Obeys cfg s' := by
  cases a with
  | pollOpen now graphs =>
    obtain ⟨⟨hle, hlt⟩, heq⟩ := Option.ite_none_right_eq_some.mp hs
    cases heq
    obtain ⟨hans, hne⟩ := answers_pollOpen cfg.gaps s.controller now graphs
    exact h.answer hle hans fun hstop => absurd hstop hne
  | pollClose now graphs =>
    obtain ⟨⟨hle, hlt⟩, heq⟩ := Option.ite_none_right_eq_some.mp hs
    cases heq
    obtain ⟨hans, -⟩ := answers_pollClose cfg.gaps s.controller now graphs
    exact h.answer hle hans (h.fits hle (by omega) hans hfit)
  | poll now graphs =>
    obtain ⟨⟨hle, hlt⟩, heq⟩ := Option.ite_none_right_eq_some.mp hs
    cases heq
    have hans := answers_poll cfg.gaps s.controller now graphs
    exact h.answer hle hans (h.fits hle (by omega) hans hfit)
  | closed pairsTotal =>
    cases hs
    exact h.closed pairsTotal
  | shutdown now =>
    obtain ⟨⟨hle, hlt⟩, heq⟩ := Option.ite_none_right_eq_some.mp hs
    cases heq
    obtain ⟨hans, -, hr⟩ := answers_shutdown cfg.gaps s.controller now
    exact h.answer hle hans fun _ => .inl hr

def backToBack (cfg : DutyConfig) (durNs : Nat) : List Attempt :=
  [.pollOpen 0 false, .pollClose durNs false, .pollOpen (durNs + cfg.burstMinGapForNs durNs) false]

theorem pollOpen_of_due {c : BurstController} {now : Nat} (hs : c.sampling = false)
    (hr : c.refused = false) (hdue : c.started = true → c.nextStartNs ≤ now) :
    ∃ c', c.pollOpen now false = (c', .start) ∧ c'.sampling = true ∧ c'.refused = false ∧
      c'.burstStartNs = now ∧ c'.gapNs = c.gapNs := by
  have hnot : ¬(c.started && decide (now < c.nextStartNs)) = true := by
    rw [Bool.and_eq_true, decide_eq_true_eq]
    rintro ⟨hst, hlt⟩
    exact absurd (hdue hst) (not_le.mpr hlt)
  simp only [pollOpen, noteGraphs, openLocked, hs, hr, Bool.false_and, Bool.false_eq_true, if_false, if_neg hnot]
  exact ⟨_, rfl, rfl, rfl, rfl, rfl⟩

theorem pollClose_of_elapsed {g : BurstGaps} {c : BurstController} {now : Nat}
    (hs : c.sampling = true) (hr : c.refused = false)
    (hran : g.burstNs ≤ elapsed now c.burstStartNs) (hle : c.burstStartNs ≤ now) :
    ∃ c', c.pollClose g now false = (c', .stop) ∧ c'.sampling = false ∧ c'.refused = false ∧
      c'.nextStartNs = now + c.gapForDuration g (now - c.burstStartNs) := by
  have hdur : (if now > c.burstStartNs then now - c.burstStartNs else 0) = now - c.burstStartNs := by
    split <;> omega
  simp only [pollClose, noteGraphs, closeLocked, hs, hr, Bool.false_and, Bool.false_eq_true,
    if_false, Bool.not_true, if_neg (not_lt.mpr hran), stopLocked, hdur]
  exact ⟨_, rfl, rfl, rfl, rfl⟩

theorem run_backToBack (hlen : cfg.burstNs ≤ durNs) (hlt : durNs + 2 * cfg.maxGapNs < 2 ^ 64) :
    ∃ s, Run (fun s a s' => s.step cfg a = some s') (new cfg) (backToBack cfg durNs) s ∧
      s.cycles = [⟨durNs, cfg.burstMinGapForNs durNs⟩] := by
  have hmax : cfg.burstMinGapForNs durNs ≤ cfg.maxGapNs := by
    rw [cfg.burstMinGapForNs_eq]
    exact min_le_right _ _
  obtain ⟨c₁, h₁, hs₁, hr₁, hb₁, hg₁⟩ :=
    @pollOpen_of_due (newBurstController cfg.gaps) 0 rfl rfl nofun
  have hran : cfg.gaps.burstNs ≤ elapsed durNs c₁.burstStartNs := by
    rw [hb₁, elapsed_of_le (Nat.zero_le _) (by omega), Nat.sub_zero]
    exact hlen
  obtain ⟨c₂, h₂, hs₂, hr₂, hn₂⟩ := pollClose_of_elapsed hs₁ hr₁ hran (hb₁ ▸ Nat.zero_le _)
  have hgap : c₁.gapForDuration cfg.gaps (durNs - c₁.burstStartNs) = cfg.burstMinGapForNs durNs := by
    rw [hb₁, gapForDuration, hg₁]
    exact if_neg (not_lt.mpr (cfg.burstMinGapForNs_mono hlen))
  rw [hgap] at hn₂
  obtain ⟨c₃, h₃, -⟩ := @pollOpen_of_due c₂ (durNs + cfg.burstMinGapForNs durNs) hs₂ hr₂ fun _ => hn₂.le
  -- the states in between
  let s₁ : Cycling := { controller := c₁ }
  let s₂ : Cycling := { controller := c₂, clock := durNs, last := some (0, durNs) }
  have e₁ : (new cfg).step cfg (.pollOpen 0 false) = some s₁ := by
    simp only [step, new, h₁, answer]
    exact if_pos ⟨le_refl _, by omega⟩
  have e₂ : s₁.step cfg (.pollClose durNs false) = some s₂ := by
    simp only [step, s₁, h₂, answer, hb₁]
    exact if_pos ⟨Nat.zero_le _, by omega⟩
  have e₃ : s₂.step cfg (.pollOpen (durNs + cfg.burstMinGapForNs durNs) false) =
      some (s₂.answer (durNs + cfg.burstMinGapForNs durNs) (c₃, .start)) := by
    simp only [step, s₂, h₃]
    exact if_pos ⟨Nat.le_add_right _ _, by omega⟩
  refine ⟨_, ((Run.nil.snoc e₁).snoc e₂).snoc e₃, ?_⟩
  simp [answer, s₂]

/-- The duty ceiling.  In every run in which each burst that ends by the clock leaves a gap
that can be granted, every completed cycle is within the ceiling, however far its burst
overran; and after any other burst that is not empty it need not be. -/
theorem duty_ceiling (cfg : DutyConfig) :
    (∀ as s, Run (fun s a s' => s.Fits cfg a ∧ s.step cfg a = some s') (new cfg) as s →
      ∀ c ∈ s.cycles, (c.burst : ℚ) ≤ cfg.maxDuty * (c.burst + c.gap)) ∧
    ∀ durNs, cfg.burstNs ≤ durNs → 0 < durNs → durNs + 2 * cfg.maxGapNs < 2 ^ 64 → ¬cfg.GapFits durNs →
      ∃ as s, Run (fun s a s' => s.step cfg a = some s') (new cfg) as s ∧
        ∃ c ∈ s.cycles, c.burst = durNs ∧ cfg.maxDuty * (c.burst + c.gap) < c.burst := by
  constructor
  · intro as s h
    have hobeys : Obeys cfg s := Run.invariant (I := fun _ s => Obeys cfg s) (obeys_new cfg)
      (fun _ _ _ _ _ hi ha => hi.step ha.1 ha.2) h
    exact hobeys.cycles
  · intro durNs hlen hpos hlt hfit
    obtain ⟨s, hrun, hcycles⟩ := run_backToBack hlen hlt
    refine ⟨_, s, hrun, _, hcycles ▸ List.mem_singleton_self _, rfl, ?_⟩
    exact cfg.ceiling_broken hpos hfit

instance (cfg : DutyConfig) (s : Cycling) : DecidablePred (s.Fits cfg) := fun a => by
  unfold Fits
  split <;> infer_instance

/-- A burst of 104 ms instead of 50 ms, its yield, and the next burst after the gap it is
owed. -/
def overrunWithin : List Attempt :=
  [.pollOpen 0 false, .pollClose 104000000 false, .closed 3, .pollOpen 2080000000 false]

theorem duty_ceiling_overrun : (∃ s, Run (fun s a s' => s.Fits {} a ∧ s.step {} a = some s') (new {}) overrunWithin s ∧
      s.cycles = [⟨104000000, 1976000000⟩] ∧
      ∀ c ∈ s.cycles, (c.burst : ℚ) ≤ 1 / 20 * (c.burst + c.gap)) ∧
    ∃ as s, Run (fun s a s' => s.step {} a = some s') (new {}) as s ∧
      ∃ c ∈ s.cycles, c.burst = 1000000000 ∧ (1 / 20 : ℚ) * (c.burst + c.gap) < c.burst := by
  constructor
  · obtain ⟨s, hrun, h⟩ := exists_guarded_run (step {}) (fun s a => s.Fits {} a) (new {})
      overrunWithin (fun s => s.cycles == [⟨104000000, 1976000000⟩]) (by decide +kernel)
    exact ⟨s, hrun, beq_iff_eq.mp h, (duty_ceiling {}).1 _ s hrun⟩
  · exact (duty_ceiling {}).2 1000000000 (by decide) (by decide) (by decide) (by decide +kernel)

/-- With the settings that ship, a burst that no launch closes for a second is followed by the
longest gap there is, ten seconds, where the ceiling of a twentieth asks for nineteen. -/
theorem duty_ceiling_exceeded : ∃ s, Run (fun s a s' => s.step {} a = some s') (new {})
        [.pollOpen 0 false, .pollClose 1000000000 false, .pollOpen 11000000000 false] s ∧
      s.cycles = [⟨1000000000, 10000000000⟩] ∧
      (1 / 20 : ℚ) * (1000000000 + 10000000000) < 1000000000 := by
  obtain ⟨s, hrun, h⟩ := @exists_run _ _ (step {}) (new {})
    [.pollOpen 0 false, .pollClose 1000000000 false, .pollOpen 11000000000 false]
    (fun s => s.cycles == [⟨1000000000, 10000000000⟩]) (by decide +kernel)
  exact ⟨s, hrun, beq_iff_eq.mp h, by norm_num⟩

end Cycling

end PerfAgent.Shim
