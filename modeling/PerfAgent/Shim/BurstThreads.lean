import PerfAgent.Lib.Lists
import PerfAgent.Shim.Adapter

/-!
# Bursts opened and closed by many threads

What the closed records say about the bursts, whichever thread opened and closed them
(`burst_open_at_launch` and `burst_close_at_launch` of `shim/nvidia/cupti_adapter.cc`): a
burst is ended by the clock only after its length, a record has the start and the end of one
burst, and no later burst starts before the instant a record promises.

Each call reads the clock before it takes the controller's lock, and reads the start of the
open burst in a critical section of its own.  So the three statements hold in the runs in
which what a closing call has read is still true when it closes a burst, and no burst opens
before the last one's record is settled (`Adapter.UpToDate`).  A closing call whose reading is
older than the burst it finds ends it at once: the elapsed time wraps around.
-/

namespace PerfAgent.Shim

open PerfAgent.Gpu List

namespace Adapter

/-- What a call has read still holds where it acts on it:
* the start is that of the burst it closes, and the burst had started at the time it read;
* a burst opens only when no thread is between the end of another and its record. -/
def UpToDate (cfg : BurstConfig) (s : Adapter) : Action → Prop
  | .advance t o =>
    match s.threads[t]? with
    | some (.openPoll now) =>
      (s.burst.pollOpen now o.graphs).2 = .start → ∀ p ∈ s.threads, p.settling = false
    | some (.closePoll now startNs teardown) =>
      (s.burst.pollStop cfg now o.graphs teardown).2 = .stop → startNs = s.burst.burstStartNs ∧ startNs ≤ now
    | _ => True
  | _ => True

instance (cfg : BurstConfig) (s : Adapter) : DecidablePred (s.UpToDate cfg)
  | .advance t o => by
      dsimp only [UpToDate]
      exact match s.threads[t]? with
        | some (.openPoll _) => inferInstanceAs (Decidable (_ → _))
        | some (.closePoll ..) => inferInstanceAs (Decidable (_ → _))
        | none | some .idle | some (.openGuard ..) | some (.openStart ..) | some (.openLeave _)
        | some (.openEmit _) | some (.closeRead ..) | some (.closing ..) | some (.closeEmit ..)
        | some .timerGuard | some .timerDrain => .isTrue trivial
  | .tick _ | .launchEnter _ | .launchExit _ | .shutdown _ | .timer _ => .isTrue trivial

end Adapter

/-- The end of a burst: when it was, by the closing call and by the clock, and why. -/
structure BurstStop where
  burst : Nat
  endNs : Nat
  clock : Nat
  why : BurstStopReason
  deriving DecidableEq

variable {now : Nat}

/-- The process, with the bursts opened so far and their starts, and the bursts ended. -/
structure Logged where
  adapter : Adapter
  opens : List (Nat × Nat) := []
  stops : List BurstStop := []
  deriving DecidableEq

namespace Logged

/-- A process of `n` threads in which nothing has happened. -/
def new (cfg : BurstConfig) (n : Nat) : Logged where
  adapter := .new cfg n

def follow (l : Logged) (s : Adapter) : Logged where
  adapter := s
  opens :=
    if s.burst.bursts = l.adapter.burst.bursts then l.opens
    else (s.burst.bursts, s.burst.burstStartNs) :: l.opens
  stops :=
    if l.adapter.burst.sampling = true ∧ s.burst.sampling = false then
      ⟨s.burst.bursts, s.burst.lastBurstEndNs, l.adapter.clock, s.burst.lastStop⟩ :: l.stops
    else l.stops

def step (cfg : BurstConfig) (l : Logged) (a : Adapter.Action) : Option Logged :=
  (l.adapter.step cfg a).map l.follow

/-- The record of burst `k` is true of the log: it has the start and the end of that burst, in
order, and no later burst started before the end of the quiet interval. -/
structure Truthful (l : Logged) (k : Nat) (w : SamplingWindow) : Prop where
  start : (k, w.startNs) ∈ l.opens
  stop : ∃ st ∈ l.stops, st.burst = k ∧ st.endNs = w.endNs
  straight : w.startNs ≤ w.endNs
  promise : ∀ o ∈ l.opens, k < o.1 → w.quietMs ≠ kWindowQuietNever ∧ w.endNs + w.quietMs * 1000000 ≤ o.2

/-! ## The invariant -/

structure View where
  clock : Nat
  burst : BurstController
  opens : List (Nat × Nat)
  stops : List BurstStop

def view (l : Logged) : View := ⟨l.adapter.clock, l.adapter.burst, l.opens, l.stops⟩

structure LogOk (cfg : BurstConfig) (v : View) : Prop where
  clock_lt : v.clock < 2 ^ 64
  start_le : v.burst.burstStartNs ≤ v.clock
  started : v.burst.sampling = true → v.burst.started = true
  opened : v.burst.started = true → (v.burst.bursts, v.burst.burstStartNs) ∈ v.opens
  opens_le : ∀ o ∈ v.opens, o.1 ≤ v.burst.bursts
  nodup : (v.opens.map Prod.fst).Nodup
  straight : v.burst.started = true → v.burst.sampling = false →
    v.burst.burstStartNs ≤ v.burst.lastBurstEndNs ∧ v.burst.lastBurstEndNs ≤ v.burst.nextStartNs
  stopped : v.burst.started = true → v.burst.sampling = false →
    ∃ st ∈ v.stops, st.burst = v.burst.bursts ∧ st.endNs = v.burst.lastBurstEndNs
  ran : ∀ st ∈ v.stops, st.why = .dutyCycle → ∃ b, (st.burst, b) ∈ v.opens ∧ b + cfg.burstNs ≤ st.clock

/-- The record of burst `k` is true, and stays so: the controller is bound by the promise
until a later burst opens, and that starts after it. -/
structure Recorded (v : View) (k : Nat) (w : SamplingWindow) : Prop where
  started : v.burst.started = true
  start : (k, w.startNs) ∈ v.opens
  stop : ∃ st ∈ v.stops, st.burst = k ∧ st.endNs = w.endNs
  straight : w.startNs ≤ w.endNs
  promise : ∀ o ∈ v.opens, k < o.1 → w.quietMs ≠ kWindowQuietNever ∧ w.endNs + w.quietMs * 1000000 ≤ o.2
  bound : (v.burst.sampling = false ∧ v.burst.haveOpenYield = false ∧ (v.burst.refused = true ∨
        w.quietMs ≠ kWindowQuietNever ∧ w.endNs + w.quietMs * 1000000 ≤ v.burst.nextStartNs)) ∨
    (w.quietMs ≠ kWindowQuietNever ∧ w.endNs + w.quietMs * 1000000 ≤ v.burst.burstStartNs)

structure ClosingOk (v : View) (stage : Stage) (c : Closing) : Prop where
  sampling : v.burst.sampling = false
  started : v.burst.started = true
  burst : c.burst = v.burst.bursts
  startNs : c.startNs = v.burst.burstStartNs
  now : c.now = v.burst.lastBurstEndNs
  yielded : stage = .refused ∨ stage = .next → v.burst.haveOpenYield = false

def PcFine (v : View) : Pc → Prop
  | .openPoll now => now ≤ v.clock
  | .closeRead now _ => now ≤ v.clock
  | .closePoll now _ _ => now ≤ v.clock
  | .closing stage c => ClosingOk v stage c
  | .closeEmit c quietMs => Recorded v c.burst (windowRecord c.startNs c.now quietMs)
  | _ => True

structure Inv (cfg : BurstConfig) (l : Logged) : Prop where
  log : LogOk cfg l.view
  threads : ∀ p ∈ l.adapter.threads, PcFine l.view p
  closed : ∀ k w, (k, w) ∈ l.adapter.closed → Recorded l.view k w

variable {cfg : BurstConfig} {v v' : View} {k : Nat} {w : SamplingWindow}

theorem inv_new (cfg : BurstConfig) (n : Nat) : Inv cfg (new cfg n) where
  log := ⟨Nat.one_lt_two_pow (by decide), Nat.zero_le _, nofun, nofun, nofun, nodup_nil, nofun,
    nofun, nofun⟩
  threads := by
    intro p hp
    rw [eq_of_mem_replicate hp]
    trivial
  closed := nofun

/-! ## What the steps do to the log -/

def View.next (v : View) (b : BurstController) : View where
  clock := v.clock
  burst := b
  opens :=
    if b.bursts = v.burst.bursts then v.opens else (b.bursts, b.burstStartNs) :: v.opens
  stops :=
    if v.burst.sampling = true ∧ b.sampling = false then
      ⟨b.bursts, b.lastBurstEndNs, v.clock, b.lastStop⟩ :: v.stops
    else v.stops

theorem view_follow {l : Logged} {s : Adapter} (h : s.clock = l.adapter.clock) :
    (l.follow s).view = l.view.next s.burst := by
  rw [view, View.next, follow, h]
  rfl

theorem not_stopped (sampling : Bool) : ¬(sampling = true ∧ sampling = false) := by
  rintro ⟨h, h'⟩
  cases h.symm.trans h'

theorem View.next_self (v : View) : v.next v.burst = v := by
  rw [next, if_pos rfl, if_neg (not_stopped _)]

/-- What a step of the controller keeps: the log, the records, and what the threads know that
`ok` holds of. -/
structure Keeps (cfg : BurstConfig) (v v' : View) (ok : Pc → Prop) : Prop where
  log : LogOk cfg v → LogOk cfg v'
  recorded : ∀ {k w}, LogOk cfg v → Recorded v k w → Recorded v' k w
  pc : ∀ {p}, ok p → LogOk cfg v → PcFine v p → PcFine v' p

theorem keeps_self (cfg : BurstConfig) (v : View) : Keeps cfg v v fun _ => True :=
  ⟨id, fun _ h => h, fun _ _ h => h⟩

theorem PcFine.mono {p : Pc} (h : PcFine v p) (hclock : v.clock ≤ v'.clock)
    (hclosing : ∀ stage c, p = .closing stage c → ClosingOk v stage c → ClosingOk v' stage c)
    (hrec : ∀ {k w}, Recorded v k w → Recorded v' k w) : PcFine v' p := by
  cases p with
  | openPoll now => exact h.trans hclock
  | closeRead now teardown => exact h.trans hclock
  | closePoll now startNs teardown => exact h.trans hclock
  | closing stage c => exact hclosing stage c rfl h
  | closeEmit c quietMs => exact hrec h
  | _ => trivial

theorem keeps_tick (v : View) {clock : Nat} (hle : v.clock ≤ clock) (hlt : clock < 2 ^ 64) :
    Keeps cfg v { v with clock := clock } fun _ => True := by
  have hrec : ∀ {k w}, Recorded v k w → Recorded { v with clock := clock } k w := fun h =>
    ⟨h.started, h.start, h.stop, h.straight, h.promise, h.bound⟩
  refine ⟨fun h => ?_, fun _ => hrec, fun _ _ hp => hp.mono hle (fun _ _ _ hc => ?_) hrec⟩
  · exact ⟨hlt, h.start_le.trans hle, h.started, h.opened, h.opens_le, h.nodup, h.straight, h.stopped,
      h.ran⟩
  · exact ⟨hc.sampling, hc.started, hc.burst, hc.startNs, hc.now, hc.yielded⟩

theorem keeps_closed (cfg : BurstConfig) (v : View) (pairs : Nat) :
    Keeps cfg v (v.next (v.burst.closed cfg pairs)) fun _ => True := by
  rcases BurstController.closed_eq cfg v.burst pairs with ⟨-, heq⟩ | ⟨n, gap, hopen, -, heq⟩
  · rw [heq, v.next_self]
    exact keeps_self cfg v
  have hv : v.next (v.burst.closed cfg pairs) = { v with burst := v.burst.closed cfg pairs } := by
    rw [heq, View.next, if_pos rfl, if_neg (not_stopped _)]
  rw [hv, heq]
  have hrec : ∀ {k w}, Recorded v k w → Recorded { v with burst := { v.burst with
      haveOpenYield := false
      pairsAtLastClose := pairs
      pairs := n
      gapNs := gap
      nextStartNs := v.burst.lastBurstEndNs + gap } } k w := by
    intro k w h
    refine ⟨h.started, h.start, h.stop, h.straight, h.promise, .inr (h.bound.resolve_left ?_)⟩
    -- while the yield is open no record of the last burst has been settled
    rintro ⟨-, hno, -⟩
    cases hopen.symm.trans hno
  refine ⟨fun h => ?_, fun _ => hrec, fun _ _ hp => hp.mono (Nat.le_refl _) (fun _ _ _ hc => ?_) hrec⟩
  · exact ⟨h.clock_lt, h.start_le, h.started, h.opened, h.opens_le, h.nodup,
      fun hst hs => ⟨(h.straight hst hs).1, Nat.le_add_right _ _⟩, h.stopped, h.ran⟩
  · exact ⟨hc.sampling, hc.started, hc.burst, hc.startNs, hc.now, fun _ => rfl⟩

theorem keeps_none (cfg : BurstConfig) (v : View) {refused : Bool} {graphRefusals : Nat}
    (hr : v.burst.refused = true → refused = true) :
    Keeps cfg v (v.next { v.burst with refused := refused, graphRefusals := graphRefusals }) fun _ => True := by
  rw [View.next, if_pos rfl, if_neg (not_stopped _)]
  have hrec : ∀ {k w}, Recorded v k w → Recorded { v with burst := { v.burst with
      refused := refused, graphRefusals := graphRefusals } } k w := fun h =>
    ⟨h.started, h.start, h.stop, h.straight, h.promise, h.bound.imp_left fun h => ⟨h.1, h.2.1, h.2.2.imp_left hr⟩⟩
  refine ⟨fun h => ?_, fun _ => hrec, fun _ _ hp => hp.mono (Nat.le_refl _) (fun _ _ _ hc => ?_) hrec⟩
  · exact ⟨h.clock_lt, h.start_le, h.started, h.opened, h.opens_le, h.nodup, h.straight, h.stopped,
      h.ran⟩
  · exact ⟨hc.sampling, hc.started, hc.burst, hc.startNs, hc.now, hc.yielded⟩

theorem keeps_start (cfg : BurstConfig) (v : View) {graphRefusals firstStartNs : Nat} (hnow : now ≤ v.clock)
    (hs : v.burst.sampling = false) (hr : v.burst.refused = false)
    (hdue : v.burst.started = true → v.burst.nextStartNs ≤ now) :
    Keeps cfg v
      (v.next { v.burst with
        refused := false
        graphRefusals := graphRefusals
        sampling := true
        started := true
        firstStartNs := firstStartNs
        burstStartNs := now
        bursts := v.burst.bursts + 1 }) fun p => p.settling = false := by
  rw [View.next, if_neg (Nat.succ_ne_self _), if_neg (by rintro ⟨-, h⟩; cases h)]
  have hrec : ∀ {k w}, LogOk cfg v → Recorded v k w → Recorded
      { v with
        burst := { v.burst with
          refused := false
          graphRefusals := graphRefusals
          sampling := true
          started := true
          firstStartNs := firstStartNs
          burstStartNs := now
          bursts := v.burst.bursts + 1 }
        opens := (v.burst.bursts + 1, now) :: v.opens } k w := by
    intro k w hlog h
    have hpromise : w.quietMs ≠ kWindowQuietNever ∧ w.endNs + w.quietMs * 1000000 ≤ now := by
      rcases h.bound with ⟨-, -, hrf | hb⟩ | hb
      · cases hrf.symm.trans hr
      · exact ⟨hb.1, hb.2.trans (hdue h.started)⟩
      · obtain ⟨hend, hnext⟩ := hlog.straight h.started hs
        exact ⟨hb.1, hb.2.trans (hend.trans (hnext.trans (hdue h.started)))⟩
    refine ⟨rfl, mem_cons_of_mem _ h.start, h.stop, h.straight, fun o ho hk => ?_, .inr hpromise⟩
    rcases mem_cons.mp ho with rfl | ho
    · exact hpromise
    · exact h.promise o ho hk
  refine ⟨fun h => ⟨h.clock_lt, hnow, fun _ => rfl, fun _ => mem_cons_self, fun o ho => ?_, ?_,
    nofun, nofun, fun st hst hwhy => ?_⟩, hrec, fun hp hlog hfine => ?_⟩
  · rcases mem_cons.mp ho with rfl | ho
    · exact Nat.le_refl _
    · exact (h.opens_le o ho).trans (Nat.le_succ _)
  · rw [map_cons, nodup_cons]
    refine ⟨fun hmem => ?_, h.nodup⟩
    obtain ⟨o, ho, heq⟩ := mem_map.mp hmem
    have hnew : o.1 = v.burst.bursts + 1 := heq
    exact absurd (h.opens_le o ho) (hnew ▸ Nat.not_succ_le_self _)
  · obtain ⟨b, hb, hran⟩ := h.ran st hst hwhy
    exact ⟨b, mem_cons_of_mem _ hb, hran⟩
  · refine hfine.mono (Nat.le_refl _) (fun stage c heq _ => ?_) (hrec hlog)
    rw [heq] at hp
    cases hp

theorem keeps_stop (cfg : BurstConfig) (v : View) {now graphRefusals gap : Nat} {refused : Bool}
    {why : BurstStopReason} (hnow : now ≤ v.clock) (hle : v.burst.burstStartNs ≤ now)
    (hs : v.burst.sampling = true)
    (hran : why = .dutyCycle → v.burst.burstStartNs + cfg.burstNs ≤ now) :
    Keeps cfg v
      (v.next { v.burst with
        refused := refused
        graphRefusals := graphRefusals
        sampling := false
        lastStop := why
        burstNs := v.burst.burstNs + (now - v.burst.burstStartNs)
        lastBurstDur := now - v.burst.burstStartNs
        lastBurstEndNs := now
        haveOpenYield := true
        gapNs := gap
        nextStartNs := now + gap }) fun _ => True := by
  rw [View.next, if_pos rfl, if_pos ⟨hs, rfl⟩]
  have hrec : ∀ {k w}, Recorded v k w → Recorded
      { v with
        burst := { v.burst with
          refused := refused
          graphRefusals := graphRefusals
          sampling := false
          lastStop := why
          burstNs := v.burst.burstNs + (now - v.burst.burstStartNs)
          lastBurstDur := now - v.burst.burstStartNs
          lastBurstEndNs := now
          haveOpenYield := true
          gapNs := gap
          nextStartNs := now + gap }
        stops := ⟨v.burst.bursts, now, v.clock, why⟩ :: v.stops } k w := by
    intro k w h
    obtain ⟨st, hst, hk⟩ := h.stop
    refine ⟨h.started, h.start, ⟨st, mem_cons_of_mem _ hst, hk⟩, h.straight, h.promise, .inr (h.bound.resolve_left ?_)⟩
    rintro ⟨hno, -⟩
    cases hs.symm.trans hno
  refine ⟨fun h => ⟨h.clock_lt, h.start_le, nofun, h.opened, h.opens_le, h.nodup,
    fun _ _ => ⟨hle, Nat.le_add_right _ _⟩, fun _ _ => ⟨_, mem_cons_self, rfl, rfl⟩, ?_⟩,
    fun _ => hrec, fun _ _ hp => hp.mono (Nat.le_refl _) (fun _ _ _ hc => ?_) hrec⟩
  · intro st hst hwhy
    rcases mem_cons.mp hst with rfl | hst
    · exact ⟨_, h.opened (h.started hs), (hran hwhy).trans hnow⟩
    · exact h.ran st hst hwhy
  · cases hs.symm.trans hc.sampling

theorem keeps_answers {r : BurstController × BurstAction} (hans : BurstController.Answers cfg v.burst now r)
    (hlog : LogOk cfg v) (hnow : now ≤ v.clock) (hstop : r.2 = .stop → v.burst.burstStartNs ≤ now) :
    Keeps cfg v (v.next r.1) fun p => r.2 = .start → p.settling = false := by
  cases hans with
  | none refused graphRefusals hr =>
    obtain ⟨h₁, h₂, h₃⟩ := @keeps_none cfg v refused graphRefusals hr
    exact ⟨h₁, h₂, fun _ => h₃ trivial⟩
  | start refused graphRefusals firstStartNs hs hr hr' hdue =>
    have hf : v.burst.refused = false := by
      cases hc : v.burst.refused
      · rfl
      · cases (hr hc).symm.trans hr'
    subst hr'
    obtain ⟨h₁, h₂, h₃⟩ := keeps_start cfg v hnow hs hf hdue
    exact ⟨h₁, h₂, fun hp => h₃ (hp rfl)⟩
  | stop refused graphRefusals gap why hs hr hran hgap =>
    have hlen : why = .dutyCycle → v.burst.burstStartNs + cfg.burstNs ≤ now := by
      intro hwhy
      have hle := hstop rfl
      rw [if_pos hwhy, BurstController.elapsed_of_le hle (hnow.trans_lt hlog.clock_lt)] at hran
      omega
    obtain ⟨h₁, h₂, h₃⟩ :=
      @keeps_stop cfg v now graphRefusals gap refused why hnow (hstop rfl) hs hlen
    exact ⟨h₁, h₂, fun _ => h₃ trivial⟩

/-! ## Runs -/

variable {l l' : Logged} {s' : Adapter} {t : Nat} {p p' : Pc}

theorem Inv.follow (h : Inv cfg l) (hclock : s'.clock = l.adapter.clock) {ok : Pc → Prop}
    (hkeep : Keeps cfg l.view (l.view.next s'.burst) ok)
    (hok : ∀ q ∈ l.adapter.threads, ok q)
    (hthreads : s'.threads = l.adapter.threads.set t p')
    (hp' : PcFine (l.view.next s'.burst) p')
    (hclosed : ∀ k w, (k, w) ∈ s'.closed → (k, w) ∈ l.adapter.closed ∨ Recorded (l.view.next s'.burst) k w) :
    Inv cfg (l.follow s') := by
  have hv : (l.follow s').view = l.view.next s'.burst := view_follow hclock
  refine ⟨hv ▸ hkeep.log h.log, fun q hq => ?_, fun k w hkw => ?_⟩
  · rw [hv]
    have hq' : q ∈ l.adapter.threads.set t p' := hthreads ▸ hq
    rcases mem_or_eq_of_mem_set hq' with hq | rfl
    · exact hkeep.pc (hok q hq) h.log (h.threads q hq)
    · exact hp'
  · rw [hv]
    rcases hclosed k w hkw with hkw | hrec
    · exact hkeep.recorded h.log (h.closed k w hkw)
    · exact hrec

theorem Inv.goto (h : Inv cfg l) (hclock : s'.clock = l.adapter.clock)
    (hburst : s'.burst = l.adapter.burst) (hthreads : s'.threads = l.adapter.threads.set t p')
    (hp' : PcFine l.view p')
    (hclosed : ∀ k w, (k, w) ∈ s'.closed → (k, w) ∈ l.adapter.closed ∨ Recorded l.view k w) :
    Inv cfg (l.follow s') := by
  have hv : l.view.next s'.burst = l.view := hburst ▸ l.view.next_self
  have hkeep : Keeps cfg l.view (l.view.next s'.burst) fun _ => True := by
    rw [hv]
    exact keeps_self cfg l.view
  refine h.follow hclock hkeep (fun _ _ => trivial) hthreads ?_ ?_
  · rw [hv]
    exact hp'
  · rw [hv]
    exact hclosed

theorem ClosingOk.yield {stage : Stage} {c : Closing} (h : ClosingOk v stage c) (pairs : Nat) :
    ClosingOk (v.next (v.burst.closed cfg pairs)) .refused c := by
  rcases BurstController.closed_eq cfg v.burst pairs with ⟨hno, heq⟩ | ⟨n, gap, -, -, heq⟩
  · rw [heq, v.next_self]
    exact ⟨h.sampling, h.started, h.burst, h.startNs, h.now, fun _ => hno⟩
  · rw [heq]
    exact ⟨h.sampling, h.started, h.burst, h.startNs, h.now, fun _ => rfl⟩

theorem ClosingOk.recorded {stage : Stage} {c : Closing} (h : ClosingOk v stage c)
    (hlog : LogOk cfg v) (hyield : v.burst.haveOpenYield = false)
    (hbound : v.burst.refused = true ∨
      w.quietMs ≠ kWindowQuietNever ∧ w.endNs + w.quietMs * 1000000 ≤ v.burst.nextStartNs)
    (hw : w = windowRecord c.startNs c.now w.quietMs) : Recorded v c.burst w := by
  have hstart : w.startNs = v.burst.burstStartNs := by rw [hw]; exact h.startNs
  have hend : w.endNs = v.burst.lastBurstEndNs := by rw [hw]; exact h.now
  refine ⟨h.started, ?_, ?_, ?_, fun o ho hk => ?_, .inl ⟨h.sampling, hyield, hbound⟩⟩
  · rw [h.burst, hstart]
    exact hlog.opened h.started
  · rw [h.burst, hend]
    exact hlog.stopped h.started h.sampling
  · rw [hstart, hend]
    exact (hlog.straight h.started h.sampling).1
  · -- no later burst has opened
    exact absurd (hlog.opens_le o ho) (Nat.not_le.mpr (h.burst ▸ hk))

theorem Inv.advance_closing (h : Inv cfg l) {stage : Stage} {c : Closing} {o : Observed}
    (ht : l.adapter.threads[t]? = some (.closing stage c))
    (hstep : l.adapter.advance cfg t o (.closing stage c) = some s') : Inv cfg (l.follow s') := by
  have hc : ClosingOk l.view stage c := h.threads _ (mem_of_getElem? ht)
  have hnext : ∀ stage', (stage' = .refused ∨ stage' = .next → l.adapter.burst.haveOpenYield = false) →
      PcFine l.view (.closing stage' c) := fun stage' hy =>
    ⟨hc.sampling, hc.started, hc.burst, hc.startNs, hc.now, hy⟩
  cases stage with
  | guard =>
    cases Adapter.acquire_eq_some hstep
    exact h.goto rfl rfl rfl (hnext .stop nofun) fun _ _ => .inl
  | stop =>
    cases hstep
    exact h.goto rfl rfl rfl (hnext .drain nofun) fun _ _ => .inl
  | drain =>
    cases hstep
    exact h.goto rfl rfl rfl (hnext .leave nofun) fun _ _ => .inl
  | leave =>
    cases hstep
    exact h.goto rfl rfl rfl (hnext .yield nofun) fun _ _ => .inl
  | yield =>
    cases hstep
    exact h.follow rfl (keeps_closed cfg l.view o.pairs) (fun _ _ => trivial) rfl (hc.yield o.pairs) fun _ _ => .inl
  | refused =>
    cases hstep
    refine h.goto rfl rfl rfl ?_ fun _ _ => .inl
    split
    · next hr => exact hc.recorded h.log (hc.yielded (.inl rfl)) (.inl hr) rfl
    · exact hnext .next fun _ => hc.yielded (.inl rfl)
  | next =>
    cases hstep
    refine h.goto rfl rfl rfl ?_ fun _ _ => .inl
    have hle : c.now ≤ l.adapter.burst.nextStartNs :=
      hc.now ▸ (h.log.straight hc.started hc.sampling).2
    exact hc.recorded h.log (hc.yielded (.inr rfl)) (.inr ⟨burstQuietMs_ne_never _ _, burstQuietMs_le hle⟩) rfl

theorem closingOk_stop {r : BurstController × BurstAction} (hans : BurstController.Answers cfg v.burst now r)
    (hlog : LogOk cfg v) (hr : r.2 = .stop) :
    ClosingOk (v.next r.1) .guard ⟨now, v.burst.burstStartNs, r.1.bursts⟩ := by
  cases hans with
  | none refused graphRefusals hr' => cases hr
  | start refused graphRefusals firstStartNs hs hr' hf hdue => cases hr
  | stop refused graphRefusals gap why hs hr' hran hgap =>
    exact ⟨rfl, hlog.started hs, rfl, rfl, rfl, nofun⟩

theorem answers_pollStop (cfg : BurstConfig) (b : BurstController) (now : Nat) (graphs teardown : Bool) :
    BurstController.Answers cfg b now (b.pollStop cfg now graphs teardown) ∧
      (b.pollStop cfg now graphs teardown).2 ≠ .start := by
  unfold BurstController.pollStop
  split
  · obtain ⟨hans, hne, -⟩ := BurstController.answers_shutdown cfg b now
    exact ⟨hans, hne⟩
  · exact BurstController.answers_pollClose cfg b now graphs

theorem Inv.advance (h : Inv cfg l) {o : Observed} (ht : l.adapter.threads[t]? = some p)
    (hup : l.adapter.UpToDate cfg (.advance t o))
    (hstep : l.adapter.advance cfg t o p = some s') : Inv cfg (l.follow s') := by
  have hfine : PcFine l.view p := h.threads p (mem_of_getElem? ht)
  rw [Adapter.UpToDate, ht] at hup
  cases p with
  | idle => cases hstep
  | openPoll now =>
    cases hstep
    obtain ⟨hans, hne⟩ := BurstController.answers_pollOpen cfg l.adapter.burst now o.graphs
    refine h.follow rfl (keeps_answers hans h.log hfine fun hst => absurd hst hne)
      (fun q hq hst => hup hst q hq) rfl ?_ fun _ _ => .inl
    split <;> trivial
  | openGuard now k =>
    cases Adapter.acquire_eq_some hstep
    exact h.goto rfl rfl rfl trivial fun _ _ => .inl
  | openStart now k =>
    cases hstep
    exact h.goto rfl rfl rfl trivial fun _ _ => .inl
  | openLeave now =>
    cases hstep
    exact h.goto rfl rfl rfl trivial fun _ _ => .inl
  | openEmit now =>
    cases hstep
    unfold Adapter.emit
    split
    · exact h.goto rfl rfl rfl trivial fun _ _ => .inl
    · exact h.goto rfl rfl rfl trivial fun _ _ => .inl
  | closeRead now teardown =>
    cases hstep
    exact h.goto rfl rfl rfl hfine fun _ _ => .inl
  | closePoll now startNs teardown =>
    cases hstep
    obtain ⟨hans, hne⟩ := answers_pollStop cfg l.adapter.burst now o.graphs teardown
    refine h.follow rfl (keeps_answers hans h.log hfine fun hst => (hup hst).1 ▸ (hup hst).2)
      (fun q hq hst => absurd hst hne) rfl ?_ fun _ _ => .inl
    split
    · next hst =>
        rw [(hup hst).1]
        exact closingOk_stop hans h.log hst
    · trivial
  | closing stage c => exact h.advance_closing ht hstep
  | closeEmit c quietMs =>
    cases hstep
    unfold Adapter.emit
    split
    · refine h.goto rfl rfl rfl trivial fun k w hkw => ?_
      rcases mem_cons.mp hkw with heq | hkw
      · cases heq
        exact .inr hfine
      · exact .inl hkw
    · exact h.goto rfl rfl rfl trivial fun _ _ => .inl
  | timerGuard =>
    cases Adapter.acquire_eq_some hstep
    exact h.goto rfl rfl rfl trivial fun _ _ => .inl
  | timerDrain =>
    cases hstep
    exact h.goto rfl rfl rfl trivial fun _ _ => .inl

theorem Inv.enter (h : Inv cfg l) (hp : PcFine l.view p)
    (hstep : l.adapter.enter t p = some s') : Inv cfg (l.follow s') := by
  unfold Adapter.enter at hstep
  split at hstep
  · cases hstep
    exact h.goto rfl rfl rfl hp fun _ _ => .inl
  · cases hstep

theorem Inv.tick (h : Inv cfg l) (hle : l.adapter.clock ≤ now) (hlt : now < 2 ^ 64) :
    Inv cfg (l.follow { l.adapter with clock := now }) := by
  have hv : (l.follow { l.adapter with clock := now }).view = { l.view with clock := now } := by
    rw [view, Logged.follow, if_pos rfl, if_neg (not_stopped _)]
    rfl
  have hkeep : Keeps cfg l.view { l.view with clock := now } fun _ => True := keeps_tick l.view hle hlt
  refine ⟨?_, fun q hq => ?_, fun k w hkw => ?_⟩
  · rw [hv]
    exact hkeep.log h.log
  · rw [hv]
    exact hkeep.pc trivial h.log (h.threads q hq)
  · rw [hv]
    exact hkeep.recorded h.log (h.closed k w hkw)

theorem Inv.step (h : Inv cfg l) {a : Adapter.Action} (hup : l.adapter.UpToDate cfg a)
    (hstep : l.step cfg a = some l') : Inv cfg l' := by
  obtain ⟨s', hs', rfl⟩ := Option.map_eq_some_iff.mp hstep
  cases a with
  | tick now =>
    simp only [Adapter.step] at hs'
    split at hs'
    · next hnow =>
        cases hs'
        exact h.tick hnow.1 hnow.2
    · cases hs'
  | launchEnter t => exact Inv.enter (p := .openPoll l.adapter.clock) h (Nat.le_refl _) hs'
  | launchExit t => exact Inv.enter (p := .closeRead l.adapter.clock false) h (Nat.le_refl _) hs'
  | shutdown t => exact Inv.enter (p := .closeRead l.adapter.clock true) h (Nat.le_refl _) hs'
  | timer t => exact Inv.enter (p := .timerGuard) h trivial hs'
  | advance t o =>
    obtain ⟨p, ht, hp⟩ := Option.bind_eq_some_iff.mp hs'
    exact h.advance ht hup hp

/-! ## Every run -/

/-- What the log must show, whichever threads opened and closed the bursts. -/
structure Sound (cfg : BurstConfig) (l : Logged) : Prop where
  ran : ∀ st ∈ l.stops, st.why = .dutyCycle → ∃ b, (st.burst, b) ∈ l.opens ∧ b + cfg.burstNs ≤ st.clock
  once : (l.opens.map Prod.fst).Nodup
  truthful : ∀ k w, (k, w) ∈ l.adapter.closed → l.Truthful k w

theorem Inv.sound (h : Inv cfg l) : l.Sound cfg := by
  refine ⟨h.log.ran, h.log.nodup, fun k w hkw => ?_⟩
  obtain ⟨-, hstart, hstop, hstraight, hpromise, -⟩ := h.closed k w hkw
  exact ⟨hstart, hstop, hstraight, hpromise⟩

/-- In every run of any number of threads in which closing calls act on what still holds, a
burst is ended by the clock only after its length, and the records are true of the bursts. -/
theorem burst_records_truthful {n : Nat} {as : List Adapter.Action}
    (h : Run (fun l a l' => l.adapter.UpToDate cfg a ∧ l.step cfg a = some l') (new cfg n) as l) :
    l.Sound cfg := by
  have hinv : Inv cfg l := by
    refine Run.invariant (I := fun _ l => Inv cfg l) (inv_new cfg n) ?_ h
    rintro as l a l' - hl ⟨hup, hstep⟩
    exact hl.step hup hstep
  exact hinv.sound

/-! ## The stale reading -/

/-- Bursts of 50 ms and a duty of a twentieth, on bursts that yield nothing. -/
def twentieth : BurstConfig where
  burstNs := 50000000
  minGapForNs dur := min (19 * dur) 10000000000
  nextGapNs _ _ _ := 950000000
  burstNs_pos := by decide

/-- Thread `t` takes `n` steps. -/
def goes (t n : Nat) : List Adapter.Action := List.replicate n (.advance t {})

/-- One thread opens a burst, another closes it when its length is over, and the first opens
the next where the record says. -/
def twoBursts : List Adapter.Action :=
  [.tick 1000000000, .launchEnter 0] ++ goes 0 5 ++
  [.tick 1050000000, .launchExit 1] ++ goes 1 10 ++
  [.tick 2000000000, .launchEnter 0] ++ goes 0 5

theorem burst_records_truthful_two_bursts :
    ∃ l, Run (fun l a l' => l.adapter.UpToDate twentieth a ∧ l.step twentieth a = some l')
        (new twentieth 2) twoBursts l ∧
      l.opens = [(2, 2000000000), (1, 1000000000)] ∧
      l.adapter.closed = [(1, ⟨1000000000, 1050000000, .kernelSerialized, 950⟩)] ∧
      l.Sound twentieth := by
  obtain ⟨l, hrun, hp⟩ := exists_guarded_run (step twentieth)
    (fun l => l.adapter.UpToDate twentieth) (new twentieth 2) twoBursts
    (fun l => l.opens = [(2, 2000000000), (1, 1000000000)] ∧
      l.adapter.closed = [(1, ⟨1000000000, 1050000000, .kernelSerialized, 950⟩)])
    (by decide +kernel)
  obtain ⟨hopens, hclosed⟩ := of_decide_eq_true hp
  exact ⟨l, hrun, hopens, hclosed, burst_records_truthful hrun⟩

/-- A launch on another thread reads the clock, and closes a burst that opened since then. -/
def staleClose : List Adapter.Action :=
  [.tick 999999900, .launchExit 1, .tick 1000000000, .launchEnter 0] ++ goes 0 5 ++ goes 1 10

/-- The burst is ended by the clock the moment it has started, and its record ends before it
starts. -/
theorem burst_records_not_truthful :
    ∃ l, Run (fun l a l' => l.step twentieth a = some l') (new twentieth 2) staleClose l ∧
      l.opens = [(1, 1000000000)] ∧ l.stops = [⟨1, 999999900, 1000000000, .dutyCycle⟩] ∧
      l.adapter.closed = [(1, ⟨1000000000, 999999900, .kernelSerialized, 950⟩)] ∧
      ¬l.Sound twentieth := by
  obtain ⟨l, hrun, hp⟩ := @exists_run _ _ (step twentieth) (new twentieth 2) staleClose
    (fun l => l.opens = [(1, 1000000000)] ∧ l.stops = [⟨1, 999999900, 1000000000, .dutyCycle⟩] ∧
      l.adapter.closed = [(1, ⟨1000000000, 999999900, .kernelSerialized, 950⟩)]) (by decide +kernel)
  obtain ⟨hopens, hstops, hclosed⟩ := of_decide_eq_true hp
  refine ⟨l, hrun, hopens, hstops, hclosed, fun hsound => ?_⟩
  have htrue := hsound.truthful _ _ (hclosed ▸ mem_singleton_self _)
  exact absurd htrue.straight (by decide)

end Logged

end PerfAgent.Shim
