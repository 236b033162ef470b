import PerfAgent.Gpu.Serialization
import PerfAgent.Lib.Machine
import PerfAgent.Shim.Burst

/-!
# The bursts of the adapter

The launch callbacks and the teardown, as they open and close bursts
(`shim/nvidia/cupti_adapter.cc`).  `burst_open_at_launch`, `burst_close_at_launch` and
`burst_shutdown` run on any thread of the application, and the drain timer competes with
them for the guard over the vendor's calls.  Each call is a sequence of atomic steps: the
read of the clock that its caller makes, one call of the controller at a time, the
acquisition of the guard, the start or the stop of the contexts, the drain, the release of
the guard, and the emission of a record.  Steps of different threads interleave freely, and
the clock moves on between any two of them.

The calls that return before they reach the controller (no tier A, no context enabled) do
nothing and are left out, and so are the counters.
-/

namespace PerfAgent.Shim

open PerfAgent.Gpu

/-- `next_start_delta_ms` for "never". -/
def kWindowQuietNever : Nat := 0xFFFFFFFF

/-- `burst_quiet_ms`, once it has read that bursts are not refused. -/
def burstQuietMs (next now : Nat) : Nat :=
  if next ≤ now then 0
  else
    let ms := (next - now) / 1000000
    if ms ≥ kWindowQuietNever then kWindowQuietNever - 1 else ms

theorem burstQuietMs_ne_never (next now : Nat) : burstQuietMs next now ≠ kWindowQuietNever := by
  have hnever : kWindowQuietNever = 0xFFFFFFFF := rfl
  simp only [burstQuietMs]
  split
  · decide
  · split <;> omega

theorem burstQuietMs_le {next now : Nat} (h : now ≤ next) : now + burstQuietMs next now * 1000000 ≤ next := by
  have hle : burstQuietMs next now ≤ (next - now) / 1000000 := by
    simp only [burstQuietMs]
    split
    · exact Nat.zero_le _
    · split <;> omega
  omega

/-- The record of `emit_window`. -/
def windowRecord (startNs endNs nextStartDeltaMs : Nat) : SamplingWindow where
  startNs := startNs
  endNs := endNs
  mode := .kernelSerialized
  quietMs := nextStartDeltaMs

variable (cfg : BurstConfig)

/-- The call of the controller that `burst_shutdown` makes, or `burst_close_at_launch`. -/
def BurstController.pollStop (b : BurstController) (now : Nat) (graphsObserved teardown : Bool) :
    BurstController × BurstAction :=
  if teardown then b.shutdown cfg now else b.pollClose cfg now graphsObserved

/-- The arguments of `burst_close`, and the number of the burst it closes. -/
structure Closing where
  now : Nat
  startNs : Nat
  burst : Nat
  deriving DecidableEq

/-- What `burst_close` does next. -/
inductive Stage where
  | /-- Enter the guard. -/ guard
  | /-- Stop the contexts. -/ stop
  | /-- Drain them, inside the guard. -/ drain
  | /-- Leave the guard. -/ leave
  | /-- Hand the yield to the controller. -/ yield
  | /-- Ask whether further bursts are refused. -/ refused
  | /-- Ask for the next start. -/ next
  deriving DecidableEq

inductive Pc where
  | idle
  | /-- `burst_open_at_launch`: poll the controller. -/
    openPoll (now : Nat)
  | openGuard (now burst : Nat)
  | openStart (now burst : Nat)
  | openLeave (now : Nat)
  | openEmit (now : Nat)
  | /-- `burst_close_at_launch` or `burst_shutdown`: read the start of the open burst. -/
    closeRead (now : Nat) (teardown : Bool)
  | closePoll (now startNs : Nat) (teardown : Bool)
  | /-- `burst_close`. -/
    closing (stage : Stage) (c : Closing)
  | closeEmit (c : Closing) (quietMs : Nat)
  | /-- The drain timer. -/
    timerGuard
  | timerDrain
  deriving DecidableEq

/-- The contexts were started for a burst, from `since` until they were stopped. -/
structure Span where
  burst : Nat
  since : Nat
  till : Nat
  deriving DecidableEq

/-- The process.  `running` holds the bursts the contexts are started for and since when,
`spans` those they have been stopped for; `wire` holds the records emitted, oldest first,
and `closed` the closed ones among them with the burst that each is about. -/
structure Adapter where
  clock : Nat := 1
  burst : BurstController
  guard : Option Nat := none
  threads : List Pc
  running : List (Nat × Nat) := []
  spans : List Span := []
  wire : List SamplingWindow := []
  closed : List (Nat × SamplingWindow) := []
  deriving DecidableEq

/-- What a step reads that other parts of the process decide: whether a graph execution has
been seen, how many pairs have been counted, whether a consumer is attached. -/
structure Observed where
  graphs : Bool := false
  pairs : Nat := 0
  attached : Bool := true
  deriving DecidableEq

namespace Adapter

inductive Action where
  | /-- Time passes. -/ tick (now : Nat)
  | /-- A launch callback on entry reads the clock. -/ launchEnter (t : Nat)
  | /-- A launch callback on exit does. -/ launchExit (t : Nat)
  | /-- `burst_shutdown` does. -/ shutdown (t : Nat)
  | /-- The timer fires. -/ timer (t : Nat)
  | /-- Thread `t` takes its next step. -/ advance (t : Nat) (o : Observed)
  deriving DecidableEq

/-- A process of `n` threads in which nothing has happened. -/
def new (n : Nat) : Adapter where
  burst := newBurstController cfg
  threads := List.replicate n .idle

def goto (s : Adapter) (t : Nat) (p : Pc) : Adapter := { s with threads := s.threads.set t p }

def enter (s : Adapter) (t : Nat) (p : Pc) : Option Adapter :=
  if s.threads[t]? = some .idle then some (s.goto t p) else none

def acquire (s : Adapter) (t : Nat) (p : Pc) : Option Adapter :=
  if s.guard = none then some { s.goto t p with guard := some t } else none

theorem acquire_eq_some {s s' : Adapter} {t : Nat} {p' : Pc} (h : s.acquire t p' = some s') :
    s' = { s.goto t p' with guard := some t } := by
  unfold acquire at h
  split at h
  · exact (Option.some.inj h).symm
  · cases h

def emit (s : Adapter) (attached : Bool) (w : SamplingWindow) : Adapter :=
  if attached then { s with wire := s.wire ++ [w] } else s

/-- The next step of thread `t`, which is at `p`. -/
def advance (cfg : BurstConfig) (s : Adapter) (t : Nat) (o : Observed) : Pc → Option Adapter
  | .idle => none
  | .openPoll now =>
    let r := s.burst.pollOpen now o.graphs
    some { s.goto t (if r.2 = .start then .openGuard now r.1.bursts else .idle) with
      burst := r.1 }
  | .openGuard now k => s.acquire t (.openStart now k)
  | .openStart now k =>
    some { s.goto t (.openLeave now) with running := (k, s.clock) :: s.running }
  | .openLeave now => some { s.goto t (.openEmit now) with guard := none }
  | .openEmit now => some ((s.goto t .idle).emit o.attached (windowRecord now 0 0))
  | .closeRead now teardown => some (s.goto t (.closePoll now s.burst.burstStartNs teardown))
  | .closePoll now startNs teardown =>
    let r := s.burst.pollStop cfg now o.graphs teardown
    some { s.goto t (if r.2 = .stop then .closing .guard ⟨now, startNs, r.1.bursts⟩ else .idle)
      with burst := r.1 }
  | .closing .guard c => s.acquire t (.closing .stop c)
  | .closing .stop c =>
    some { s.goto t (.closing .drain c) with
      running := []
      spans := s.running.map (fun r => ⟨r.1, r.2, s.clock⟩) ++ s.spans }
  | .closing .drain c => some (s.goto t (.closing .leave c))
  | .closing .leave c => some { s.goto t (.closing .yield c) with guard := none }
  | .closing .yield c =>
    some { s.goto t (.closing .refused c) with burst := s.burst.closed cfg o.pairs }
  | .closing .refused c =>
    some (s.goto t (if s.burst.refused then .closeEmit c kWindowQuietNever
      else .closing .next c))
  | .closing .next c => some (s.goto t (.closeEmit c (burstQuietMs s.burst.nextStartNs c.now)))
  | .closeEmit c quietMs =>
    let w := windowRecord c.startNs c.now quietMs
    some { (s.goto t .idle).emit o.attached w with
      closed := if o.attached then (c.burst, w) :: s.closed else s.closed }
  | .timerGuard => s.acquire t .timerDrain
  | .timerDrain => some { s.goto t .idle with guard := none }

def step (cfg : BurstConfig) (s : Adapter) : Action → Option Adapter
  | .tick now => if s.clock ≤ now ∧ now < 2 ^ 64 then some { s with clock := now } else none
  | .launchEnter t => s.enter t (.openPoll s.clock)
  | .launchExit t => s.enter t (.closeRead s.clock false)
  | .shutdown t => s.enter t (.closeRead s.clock true)
  | .timer t => s.enter t .timerGuard
  | .advance t o => s.threads[t]?.bind (s.advance cfg t o)

/-! ## What the records must disclose -/

/-- The contexts were started for burst `k` at instant `t`. -/
def StartedAt (s : Adapter) (k t : Nat) : Prop :=
  (∃ sp ∈ s.spans, sp.burst = k ∧ sp.since ≤ t ∧ t ≤ sp.till) ∨ ∃ a, (k, a) ∈ s.running ∧ a ≤ t ∧ t ≤ s.clock

end Adapter

/-- Instant `t` is in the quiet interval that the record promises. -/
def Promises (w : SamplingWindow) (t : Nat) : Prop :=
  w.endNs < t ∧ (w.quietMs = kWindowQuietNever ∨ t < w.endNs + w.quietMs * 1000000)

/-- The closed records cover the serialized spans: those of their own burst lie within the
window, and none reaches into the quiet interval; so a store that has been given the
record, in whatever company of the others, calls no execution of the span not serialized. -/
structure Adapter.Discloses (s : Adapter) : Prop where
  covered : ∀ {k w t}, (k, w) ∈ s.closed → s.StartedAt k t → w.startNs ≤ t ∧ t ≤ w.endNs
  quiet : ∀ {k w k' t}, (k, w) ∈ s.closed → s.StartedAt k' t → ¬Promises w t
  classified : ∀ {k w t}, (k, w) ∈ s.closed → s.StartedAt k t →
    ∀ {maxPerPID maxPIDs : Int} {pid : Nat} {ws : List GPUSamplingWindow},
      (∀ r ∈ ws, r.pid = pid) → (ws.map WindowSet.ofRecord).Sublist s.wire →
      w ∈ ws.map WindowSet.ofRecord → ws.length ≤ (newWindowStore maxPerPID maxPIDs).maxPerPID →
      ∀ {x y}, x ≤ t → t ≤ y → ((newWindowStore maxPerPID maxPIDs).run ws).classify pid x y ≠ .notSerialized

/-- A thread that has closed a burst in the controller, and has not yet said for how long
there will be no other. -/
def Pc.settling : Pc → Bool
  | .closing _ _ => true
  | _ => false

/-- Bursts take turns, and a burst ends where it says:
* none opens while another one is being closed;
* contexts are started only while their burst is open;
* the start that a closing call has read is that of the burst it closes;
* contexts are stopped while the clock still shows what the closing call has read. -/
def Adapter.InTurn (s : Adapter) : Adapter.Action → Prop
  | .advance t o =>
    match s.threads[t]? with
    | some (.openPoll now) =>
      (s.burst.pollOpen now o.graphs).2 = .start → ∀ p ∈ s.threads, p.settling = false
    | some (.openStart _ k) => s.burst.sampling = true ∧ s.burst.bursts = k
    | some (.closePoll now startNs teardown) =>
      (s.burst.pollStop cfg now o.graphs teardown).2 = .stop → startNs = s.burst.burstStartNs
    | some (.closing .stop c) => s.clock = c.now
    | _ => True
  | _ => True

end PerfAgent.Shim
