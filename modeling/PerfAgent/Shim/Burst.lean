import Mathlib.Algebra.Ring.Nat
import Mathlib.Order.Basic

/-!
# The duty cycle

When a burst of serialized sampling starts and when it stops (`shim/core/burst.h`).  Every
method of `BurstController` holds its mutex throughout, so each is one function here.

The two functions that compute gaps work on doubles.  They are taken as they are, as
functions of the configuration, and nothing is assumed about them.  Timestamps are
nanoseconds since boot, whose sums stay far below `2 ^ 64`; the one subtraction that can
wrap, that of a burst's start from an older reading of the clock, does.
-/

namespace PerfAgent.Shim

inductive BurstAction where
  | none
  | start
  | stop
  deriving DecidableEq

inductive BurstStopReason where
  | dutyCycle
  | graph
  | shutdown
  deriving DecidableEq

/-- The length of a burst, and the two gap functions of the remaining settings. -/
structure BurstGaps where
  burstNs : Nat
  minGapForNs : Nat → Nat
  nextGapNs : Nat → Nat → Nat → Nat

/-- What the adapter configures: it takes the length from a setting in milliseconds that is
never zero. -/
structure BurstConfig extends BurstGaps where
  burstNs_pos : 0 < burstNs

instance : Coe BurstConfig BurstGaps := ⟨BurstConfig.toBurstGaps⟩

structure BurstController where
  sampling : Bool := false
  started : Bool := false
  refused : Bool := false
  haveOpenYield : Bool := false
  burstStartNs : Nat := 0
  lastBurstEndNs : Nat := 0
  lastBurstDur : Nat := 0
  firstStartNs : Nat := 0
  nextStartNs : Nat := 0
  pairsAtLastClose : Nat := 0
  gapNs : Nat
  bursts : Nat := 0
  burstNs : Nat := 0
  pairs : Nat := 0
  graphRefusals : Nat := 0
  lastStop : BurstStopReason := .dutyCycle
  deriving DecidableEq

variable (cfg : BurstGaps)

def newBurstController : BurstController where
  gapNs := cfg.minGapForNs cfg.burstNs

namespace BurstController

/-- `now - start` as the code computes it. -/
def elapsed (now start : Nat) : Nat := (now + 2 ^ 64 - start) % 2 ^ 64

/-- The gap, raised to what the duty ceiling asks for after a burst of that length. -/
def gapForDuration (c : BurstController) (durNs : Nat) : Nat :=
  let floor := cfg.minGapForNs durNs
  if c.gapNs > floor then c.gapNs else floor

def noteGraphs (c : BurstController) (graphsObserved : Bool) : BurstController :=
  if graphsObserved && !c.refused then
    { c with refused := true, graphRefusals := c.graphRefusals + 1 }
  else c

def openLocked (c : BurstController) (now : Nat) : BurstController × BurstAction :=
  if c.refused then (c, .none)
  else if c.started && now < c.nextStartNs then (c, .none)
  else
    ({ c with
        sampling := true
        started := true
        firstStartNs := if c.started then c.firstStartNs else now
        burstStartNs := now
        bursts := c.bursts + 1 }, .start)

def stopLocked (c : BurstController) (now : Nat) (why : BurstStopReason) : BurstController × BurstAction :=
  let dur := if now > c.burstStartNs then now - c.burstStartNs else 0
  -- provisional, in case `closed` is never called
  let gap := c.gapForDuration cfg dur
  ({ c with
      sampling := false
      lastStop := why
      burstNs := c.burstNs + dur
      lastBurstDur := dur
      lastBurstEndNs := now
      haveOpenYield := true
      gapNs := gap
      nextStartNs := now + gap }, .stop)

def closeLocked (c : BurstController) (now : Nat) : BurstController × BurstAction :=
  if c.refused then c.stopLocked cfg now .graph
  else if elapsed now c.burstStartNs < cfg.burstNs then (c, .none)
  else c.stopLocked cfg now .dutyCycle

def poll (c : BurstController) (now : Nat) (graphsObserved : Bool) : BurstController × BurstAction :=
  let c := c.noteGraphs graphsObserved
  if c.sampling then c.closeLocked cfg now else c.openLocked now

def pollOpen (c : BurstController) (now : Nat) (graphsObserved : Bool) : BurstController × BurstAction :=
  let c := c.noteGraphs graphsObserved
  if c.sampling then (c, .none) else c.openLocked now

def pollClose (c : BurstController) (now : Nat) (graphsObserved : Bool) : BurstController × BurstAction :=
  let c := c.noteGraphs graphsObserved
  if !c.sampling then (c, .none) else c.closeLocked cfg now

def closed (c : BurstController) (pairsTotal : Nat) : BurstController :=
  if !c.haveOpenYield then c
  else
    let pairs :=
      if pairsTotal > c.pairsAtLastClose then pairsTotal - c.pairsAtLastClose else 0
    let elapsed := c.lastBurstDur + c.gapNs
    let gap := cfg.nextGapNs c.gapNs pairs elapsed
    let gap := { c with gapNs := gap }.gapForDuration cfg c.lastBurstDur
    { c with
      haveOpenYield := false
      pairsAtLastClose := pairsTotal
      pairs := c.pairs + pairs
      gapNs := gap
      nextStartNs := c.lastBurstEndNs + gap }

def shutdown (cfg : BurstGaps) (c : BurstController) (now : Nat) : BurstController × BurstAction :=
  let c := { c with refused := true }
  if !c.sampling then (c, .none) else c.stopLocked cfg now .shutdown

/-! ## What a call does

Only these fields matter to the rest: whether a burst is open, since when and which one,
whether there will be another, and not before when. -/

structure Keeps (c c' : BurstController) : Prop where
  sampling : c'.sampling = c.sampling
  started : c'.started = c.started
  refused : c.refused = true → c'.refused = true
  burstStartNs : c'.burstStartNs = c.burstStartNs
  lastBurstEndNs : c'.lastBurstEndNs = c.lastBurstEndNs
  bursts : c'.bursts = c.bursts

structure Same (c c' : BurstController) : Prop extends Keeps c c' where
  nextStartNs : c'.nextStartNs = c.nextStartNs

/-- The next start has moved, but not to before the end of the last burst. -/
structure Adapted (c c' : BurstController) : Prop extends Keeps c c' where
  nextStartNs : c.lastBurstEndNs ≤ c.nextStartNs → c.lastBurstEndNs ≤ c'.nextStartNs

/-- Burst number `c'.bursts` has been opened. -/
structure Opened (c : BurstController) (now : Nat) (c' : BurstController) : Prop where
  was : c.sampling = false
  refused : c.refused = false
  due : c.started = true → c.nextStartNs ≤ now
  sampling : c'.sampling = true
  started : c'.started = true
  burstStartNs : c'.burstStartNs = now
  lastBurstEndNs : c'.lastBurstEndNs = c.lastBurstEndNs
  nextStartNs : c'.nextStartNs = c.nextStartNs
  bursts : c'.bursts = c.bursts + 1

/-- The open burst has been closed at `now`: it has run its length, or there will be none
after it. -/
structure Stopped (cfg : BurstGaps) (c : BurstController) (now : Nat) (c' : BurstController) :
    Prop where
  was : c.sampling = true
  ran : c'.refused = true ∨ cfg.burstNs ≤ elapsed now c.burstStartNs
  sampling : c'.sampling = false
  started : c'.started = c.started
  burstStartNs : c'.burstStartNs = c.burstStartNs
  lastBurstEndNs : c'.lastBurstEndNs = now
  nextStartNs : now ≤ c'.nextStartNs
  bursts : c'.bursts = c.bursts

/-- The answers of a call at `now`, and what each does to the controller. -/
inductive Answers (g : BurstGaps) (c : BurstController) (now : Nat) :
    BurstController × BurstAction → Prop
  | /-- No transition; a graph may have been noted. -/
    none (refused : Bool) (graphRefusals : Nat) (hr : c.refused = true → refused = true) :
      Answers g c now ({ c with refused := refused, graphRefusals := graphRefusals }, .none)
  | /-- A burst opens, once it is due. -/
    start (refused : Bool) (graphRefusals firstStartNs : Nat) (hs : c.sampling = false)
      (hr : c.refused = true → refused = true) (hr' : refused = false)
      (hdue : c.started = true → c.nextStartNs ≤ now) :
      Answers g c now
        ({ c with
            refused := refused
            graphRefusals := graphRefusals
            sampling := true
            started := true
            firstStartNs := firstStartNs
            burstStartNs := now
            bursts := c.bursts + 1 }, .start)
  | /-- The burst ends, and the next one is due after a gap that its length was charged for.
    It has run its length, or there will be none after it. -/
    stop (refused : Bool) (graphRefusals gap : Nat) (why : BurstStopReason)
      (hs : c.sampling = true) (hr : c.refused = true → refused = true)
      (hran : if why = .dutyCycle then g.burstNs ≤ elapsed now c.burstStartNs else refused = true)
      (hgap : g.minGapForNs (now - c.burstStartNs) ≤ gap) :
      Answers g c now
        ({ c with
            refused := refused
            graphRefusals := graphRefusals
            sampling := false
            lastStop := why
            burstNs := c.burstNs + (now - c.burstStartNs)
            lastBurstDur := now - c.burstStartNs
            lastBurstEndNs := now
            haveOpenYield := true
            gapNs := gap
            nextStartNs := now + gap }, .stop)

variable {g : BurstGaps} {c : BurstController} {now : Nat} {graphs : Bool}

theorem le_gapForDuration (g : BurstGaps) (c : BurstController) (durNs : Nat) :
    g.minGapForNs durNs ≤ c.gapForDuration g durNs := by
  simp only [gapForDuration]
  split
  · next h => exact Nat.le_of_lt h
  · exact Nat.le_refl _

theorem noteGraphs_eq (c : BurstController) (graphs : Bool) : ∃ refused graphRefusals, c.noteGraphs graphs =
        { c with refused := refused, graphRefusals := graphRefusals } ∧
      (c.refused = true → refused = true) := by
  unfold noteGraphs
  split
  · exact ⟨_, _, rfl, fun _ => rfl⟩
  · exact ⟨_, _, rfl, id⟩

theorem answers_openLocked {refused : Bool} {graphRefusals : Nat} (hs : c.sampling = false)
    (hr : c.refused = true → refused = true) :
    Answers g c now (openLocked { c with refused := refused, graphRefusals := graphRefusals } now) ∧
      (openLocked { c with refused := refused, graphRefusals := graphRefusals } now).2 ≠
        .stop := by
  unfold openLocked
  split
  · exact ⟨.none refused graphRefusals hr, nofun⟩
  next hf =>
  split
  · exact ⟨.none refused graphRefusals hr, nofun⟩
  next hdue =>
  refine ⟨.start refused graphRefusals _ hs hr (by simpa using hf) fun hst => ?_, nofun⟩
  rw [show c.started = true from hst, Bool.true_and, decide_eq_true_eq] at hdue
  exact Nat.not_lt.mp hdue

theorem answers_stopLocked {refused : Bool} {graphRefusals : Nat} {why : BurstStopReason}
    (hs : c.sampling = true) (hr : c.refused = true → refused = true)
    (hran : if why = .dutyCycle then g.burstNs ≤ elapsed now c.burstStartNs
      else refused = true) :
    Answers g c now (stopLocked g { c with refused := refused, graphRefusals := graphRefusals } now why) := by
  have hdur : (if now > c.burstStartNs then now - c.burstStartNs else 0) = now - c.burstStartNs := by
    split
    · rfl
    · next h => exact (Nat.sub_eq_zero_of_le (Nat.not_lt.mp h)).symm
  simp only [stopLocked, hdur]
  exact .stop refused graphRefusals _ why hs hr hran (le_gapForDuration g _ _)

theorem answers_closeLocked {refused : Bool} {graphRefusals : Nat} (hs : c.sampling = true)
    (hr : c.refused = true → refused = true) :
    Answers g c now (closeLocked g { c with refused := refused, graphRefusals := graphRefusals } now) ∧
      (closeLocked g { c with refused := refused, graphRefusals := graphRefusals } now).2 ≠
        .start := by
  unfold closeLocked
  split
  · next hf => exact ⟨answers_stopLocked hs hr hf, nofun⟩
  split
  · exact ⟨.none refused graphRefusals hr, nofun⟩
  · next hran => exact ⟨answers_stopLocked hs hr (Nat.not_lt.mp hran), nofun⟩

theorem answers_pollOpen (g : BurstGaps) (c : BurstController) (now : Nat) (graphs : Bool) :
    Answers g c now (c.pollOpen now graphs) ∧ (c.pollOpen now graphs).2 ≠ .stop := by
  obtain ⟨refused, graphRefusals, heq, hr⟩ := c.noteGraphs_eq graphs
  simp only [pollOpen, heq]
  split
  · exact ⟨.none refused graphRefusals hr, nofun⟩
  · next hs => exact answers_openLocked (by simpa using hs) hr

theorem answers_pollClose (g : BurstGaps) (c : BurstController) (now : Nat) (graphs : Bool) :
    Answers g c now (c.pollClose g now graphs) ∧ (c.pollClose g now graphs).2 ≠ .start := by
  obtain ⟨refused, graphRefusals, heq, hr⟩ := c.noteGraphs_eq graphs
  simp only [pollClose, heq]
  split
  · exact ⟨.none refused graphRefusals hr, nofun⟩
  · next hs => exact answers_closeLocked (by simpa using hs) hr

theorem answers_poll (g : BurstGaps) (c : BurstController) (now : Nat) (graphs : Bool) :
    Answers g c now (c.poll g now graphs) := by
  obtain ⟨refused, graphRefusals, heq, hr⟩ := c.noteGraphs_eq graphs
  simp only [poll, heq]
  split
  · next hs => exact (answers_closeLocked hs hr).1
  · next hs => exact (answers_openLocked (by simpa using hs) hr).1

theorem answers_shutdown (g : BurstGaps) (c : BurstController) (now : Nat) :
    Answers g c now (c.shutdown g now) ∧ (c.shutdown g now).2 ≠ .start ∧ (c.shutdown g now).1.refused = true := by
  simp only [shutdown]
  split
  · exact ⟨.none true c.graphRefusals fun _ => rfl, nofun, rfl⟩
  · next hs =>
      exact ⟨answers_stopLocked (by simpa using hs) (fun _ => rfl) rfl, nofun, rfl⟩

theorem closed_eq (g : BurstGaps) (c : BurstController) (pairsTotal : Nat) :
    (c.haveOpenYield = false ∧ c.closed g pairsTotal = c) ∨
      ∃ pairs gap, c.haveOpenYield = true ∧ g.minGapForNs c.lastBurstDur ≤ gap ∧
        c.closed g pairsTotal = { c with
          haveOpenYield := false
          pairsAtLastClose := pairsTotal
          pairs := pairs
          gapNs := gap
          nextStartNs := c.lastBurstEndNs + gap } := by
  unfold closed
  split
  · next h => exact .inl ⟨by simpa using h, rfl⟩
  · next h => exact .inr ⟨_, _, by simpa using h, le_gapForDuration g _ _, rfl⟩

theorem elapsed_of_le {start : Nat} (h : start ≤ now) (hlt : now < 2 ^ 64) : elapsed now start = now - start := by
  unfold elapsed
  omega

/-! ## The same, by the fields that matter -/

theorem Answers.cases {r : BurstController × BurstAction} (h : Answers g c now r) :
    (r.2 = .none ∧ Same c r.1) ∨ (r.2 = .start ∧ Opened c now r.1) ∨ (r.2 = .stop ∧ Stopped g c now r.1) := by
  cases h with
  | none refused graphRefusals hr => exact .inl ⟨rfl, ⟨rfl, rfl, hr, rfl, rfl, rfl⟩, rfl⟩
  | start refused graphRefusals firstStartNs hs hr hr' hdue =>
    have hf : c.refused = false := by
      cases hc : c.refused
      · rfl
      · cases (hr hc).symm.trans hr'
    exact .inr (.inl ⟨rfl, hs, hf, hdue, rfl, rfl, rfl, rfl, rfl, rfl⟩)
  | stop refused graphRefusals gap why hs hr hran hgap =>
    refine .inr (.inr ⟨rfl, hs, ?_, rfl, rfl, rfl, rfl, Nat.le_add_right _ _, rfl⟩)
    split at hran
    · exact .inr hran
    · exact .inl hran

theorem pollOpen_cases (c : BurstController) (now : Nat) (graphs : Bool) :
    ((c.pollOpen now graphs).2 = .none ∧ Same c (c.pollOpen now graphs).1) ∨
      ((c.pollOpen now graphs).2 = .start ∧ Opened c now (c.pollOpen now graphs).1) := by
  obtain ⟨h, hne⟩ := answers_pollOpen ⟨0, id, fun _ _ => id⟩ c now graphs
  exact h.cases.imp_right fun h => h.resolve_right fun h => hne h.1

theorem pollClose_cases (g : BurstGaps) (c : BurstController) (now : Nat) (graphs : Bool) :
    ((c.pollClose g now graphs).2 = .none ∧ Same c (c.pollClose g now graphs).1) ∨
      ((c.pollClose g now graphs).2 = .stop ∧ Stopped g c now (c.pollClose g now graphs).1) := by
  obtain ⟨h, hne⟩ := answers_pollClose g c now graphs
  exact h.cases.imp_right fun h => h.resolve_left fun h => hne h.1

theorem shutdown_cases (g : BurstGaps) (c : BurstController) (now : Nat) :
    ((c.shutdown g now).2 = .none ∧ Same c (c.shutdown g now).1) ∨
      ((c.shutdown g now).2 = .stop ∧ Stopped g c now (c.shutdown g now).1) := by
  obtain ⟨h, hne, -⟩ := answers_shutdown g c now
  exact h.cases.imp_right fun h => h.resolve_left fun h => hne h.1

theorem adapted_closed (g : BurstGaps) (c : BurstController) (pairsTotal : Nat) :
    Adapted c (c.closed g pairsTotal) := by
  rcases closed_eq g c pairsTotal with ⟨-, heq⟩ | ⟨pairs, gap, -, -, heq⟩
  · rw [heq]
    exact ⟨⟨rfl, rfl, id, rfl, rfl, rfl⟩, id⟩
  · rw [heq]
    exact ⟨⟨rfl, rfl, id, rfl, rfl, rfl⟩, fun _ => Nat.le_add_right _ _⟩

end BurstController
end PerfAgent.Shim
