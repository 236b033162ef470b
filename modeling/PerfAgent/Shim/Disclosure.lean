import PerfAgent.Gpu.SerializationHeld
import PerfAgent.Lib.Lists
import PerfAgent.Shim.Adapter

/-!
# The disclosed window covers the serialized span

While bursts take turns (`Adapter.InTurn`), every closed record says where its burst began
and ended, and the quiet interval it promises is kept.  The invariant follows a burst from
the poll that opens it: the contexts run for the burst that is open or being closed, the
thread that closes it is the only one that does, and a record, once its quiet interval is
settled, either speaks of the last burst, with the controller still bound by the promise, or
its promise is over.

Without the conditions the window misses the end of the span: the clock is read before the
guard that the stop has to wait for.
-/

namespace PerfAgent.Shim

open PerfAgent.Gpu List

def Pc.awaitsStop : Pc → Bool
  | .closing .guard _ => true
  | .closing .stop _ => true
  | _ => false

def Stage.stopped : Stage → Bool
  | .guard => false
  | .stop => false
  | _ => true

/-- The promise of the record is over at `t`. -/
def Over (w : SamplingWindow) (t : Nat) : Prop :=
  w.quietMs ≠ kWindowQuietNever ∧ w.endNs + w.quietMs * 1000000 ≤ t

variable {quietMs : Nat}

theorem Over.mono {w : SamplingWindow} {t t' : Nat} (h : Over w t) (ht : t ≤ t') : Over w t' :=
  ⟨h.1, h.2.trans ht⟩

namespace Adapter

/-! ## The invariant -/

/-- What the steps of the calls are about: the clock, the controller and the contexts. -/
structure Core where
  clock : Nat
  burst : BurstController
  running : List (Nat × Nat)
  spans : List Span

def core (s : Adapter) : Core := ⟨s.clock, s.burst, s.running, s.spans⟩

/-- The controller is bound by the promise of the record, which is about the last burst. -/
structure Bound (v : Core) (k : Nat) (w : SamplingWindow) : Prop where
  last : k = v.burst.bursts
  sampling : v.burst.sampling = false
  running : v.running = []
  later : v.burst.refused = true ∨ w.startNs < v.burst.nextStartNs
  never : w.quietMs = kWindowQuietNever → v.burst.refused = true
  quiet : w.quietMs ≠ kWindowQuietNever → w.endNs + w.quietMs * 1000000 ≤ v.burst.nextStartNs

structure Past (v : Core) (k : Nat) (w : SamplingWindow) : Prop where
  earlier : k < v.burst.bursts
  expired : Over w v.clock
  later : w.startNs < v.burst.burstStartNs

/-- The closed record of burst `k` is true. -/
structure Kept (v : Core) (k : Nat) (w : SamplingWindow) : Prop where
  started : v.burst.started = true
  straight : w.startNs ≤ w.endNs
  endNs_pos : 0 < w.endNs
  mode : w.mode = .kernelSerialized
  own : ∀ sp ∈ v.spans, sp.burst = k → w.startNs ≤ sp.since ∧ sp.till ≤ w.endNs
  spans : ∀ sp ∈ v.spans, sp.till ≤ w.endNs ∨ Over w sp.since
  running : ∀ r ∈ v.running, k < r.1 ∧ Over w r.2
  status : Bound v k w ∨ Past v k w

/-- The burst that the call closes is the last one, and has run its length. -/
structure Settles (cfg : BurstConfig) (v : Core) (c : Closing) : Prop where
  sampling : v.burst.sampling = false
  started : v.burst.started = true
  burst : c.burst = v.burst.bursts
  startNs : c.startNs = v.burst.burstStartNs
  now : v.burst.lastBurstEndNs = c.now
  ran : v.burst.refused = true ∨ cfg.burstNs ≤ BurstController.elapsed c.now c.startNs

/-- No contexts are started, and none have been since the call read the clock. -/
structure Ended (v : Core) (c : Closing) : Prop where
  running : v.running = []
  spans : ∀ sp ∈ v.spans, sp.till ≤ c.now
  straight : c.startNs ≤ c.now
  now_pos : 0 < c.now
  now_lt : c.now < 2 ^ 64

def PcOk (cfg : BurstConfig) (v : Core) : Pc → Prop
  | .openPoll now => now ≤ v.clock
  | .closing stage c => Settles cfg v c ∧ (stage.stopped = true → Ended v c)
  | .closeEmit c quietMs => Kept v c.burst (windowRecord c.startNs c.now quietMs)
  | _ => True

structure Sane (v : Core) : Prop where
  clock_pos : 0 < v.clock
  clock_lt : v.clock < 2 ^ 64
  burstStart_le : v.burst.burstStartNs ≤ v.clock
  lastBurstEnd_le : v.burst.lastBurstEndNs ≤ v.burst.nextStartNs
  started : v.burst.sampling = true → v.burst.started = true
  running : ∀ r ∈ v.running, r.1 = v.burst.bursts ∧ v.burst.burstStartNs ≤ r.2 ∧ r.2 ≤ v.clock
  spans : ∀ sp ∈ v.spans, sp.till ≤ v.clock ∧ sp.burst ≤ v.burst.bursts ∧
    (sp.burst = v.burst.bursts → v.burst.burstStartNs ≤ sp.since)

def Core.Halted (v : Core) : Prop :=
  v.running = [] ∧ v.burst.burstStartNs ≤ v.burst.lastBurstEndNs

/-- The record of burst `k` is settled: it has been emitted, or is about to be. -/
def Settled (s : Adapter) (k : Nat) (w : SamplingWindow) : Prop :=
  (k, w) ∈ s.closed ∨ ∃ c quietMs, .closeEmit c quietMs ∈ s.threads ∧ c.burst = k ∧
      windowRecord c.startNs c.now quietMs = w

structure Consistent (cfg : BurstConfig) (s : Adapter) : Prop where
  sane : Sane s.core
  phase : s.burst.sampling = true ∨ (∃ p ∈ s.threads, p.awaitsStop = true) ∨ s.core.Halted
  threads : ∀ p ∈ s.threads, PcOk cfg s.core p
  alone : ∀ (i j : Nat) (p q : Pc), s.threads[i]? = some p → s.threads[j]? = some q →
    p.settling = true → q.settling = true → i = j
  fresh : ∀ stage c k w, Pc.closing stage c ∈ s.threads → Settled s k w → k < c.burst
  closed : ∀ k w, (k, w) ∈ s.closed → Kept s.core k w
  ordered : ∀ k w k' w', Settled s k w → Settled s k' w' → (k < k' → w.startNs < w'.startNs) ∧ (k = k' → w = w')
  wire : ∀ w ∈ s.wire, w.endNs = 0 ∨ ∃ k, (k, w) ∈ s.closed

variable {cfg : BurstConfig} {s s' : Adapter} {t : Nat} {p p' : Pc}

theorem Consistent.kept (h : Consistent cfg s) {k : Nat} {w : SamplingWindow}
    (hs : Settled s k w) : Kept s.core k w := by
  obtain hc | ⟨c, quietMs, hp, rfl, rfl⟩ := hs
  · exact h.closed k w hc
  · exact h.threads _ hp

theorem consistent_new (cfg : BurstConfig) (n : Nat) : Consistent cfg (new cfg n) := by
  have hidle : ∀ p ∈ (new cfg n).threads, p = .idle := fun p hp => eq_of_mem_replicate hp
  have hnone : ∀ k w, ¬Settled (new cfg n) k w := by
    rintro k w (hc | ⟨c, quietMs, hp, -⟩)
    · cases hc
    · cases hidle _ hp
  constructor
  · exact ⟨Nat.one_pos, Nat.one_lt_two_pow (by decide), Nat.zero_le _, le_rfl, nofun, nofun, nofun⟩
  · exact .inr (.inr ⟨rfl, le_rfl⟩)
  · intro p hp
    rw [hidle p hp]
    trivial
  · intro i j p q hp _ hps
    rw [hidle p (mem_of_getElem? hp)] at hps
    cases hps
  · intro stage c k w hp
    cases hidle _ hp
  · exact nofun
  · intro k w k' w' hs
    exact absurd hs (hnone k w)
  · exact nofun

/-! ## Moving a thread -/

theorem Consistent.guard (h : Consistent cfg s) (g : Option Nat) : Consistent cfg { s with guard := g } :=
  ⟨h.sane, h.phase, h.threads, h.alone, h.fresh, h.closed, h.ordered, h.wire⟩

theorem Settled.of_set {k : Nat} {w : SamplingWindow} (h : Settled s' k w)
    (hthreads : s'.threads = s.threads.set t p') (hclosed : s'.closed = s.closed)
    (hp' : ∀ c quietMs, p' ≠ .closeEmit c quietMs) : Settled s k w := by
  obtain hc | ⟨c, quietMs, hp, hk, hw⟩ := h
  · exact .inl (hclosed ▸ hc)
  · rw [hthreads] at hp
    obtain hp | hp := mem_or_eq_of_mem_set hp
    · exact .inr ⟨c, quietMs, hp, hk, hw⟩
    · exact absurd hp.symm (hp' c quietMs)

theorem Consistent.alone_set (h : Consistent cfg s) (ht : s.threads[t]? = some p)
    (hp' : p'.settling = true → p.settling = true ∨ ∀ q ∈ s.threads, q.settling = false)
    (i j : Nat) (q q' : Pc) (hi : (s.threads.set t p')[i]? = some q)
    (hj : (s.threads.set t p')[j]? = some q') (hq : q.settling = true)
    (hq' : q'.settling = true) : i = j := by
  have hback : ∀ (i : Nat) (q : Pc), (s.threads.set t p')[i]? = some q → q.settling = true →
      (∃ q₀, s.threads[i]? = some q₀ ∧ q₀.settling = true) ∨ (i = t ∧ ∀ q ∈ s.threads, q.settling = false) := by
    intro i q hi hq
    by_cases hit : t = i
    · subst hit
      rw [getElem?_set_self (List.getElem?_eq_some_iff.mp ht).1] at hi
      obtain rfl := Option.some.inj hi
      obtain hp | hnone := hp' hq
      · exact .inl ⟨p, ht, hp⟩
      · exact .inr ⟨rfl, hnone⟩
    · rw [getElem?_set_ne hit] at hi
      exact .inl ⟨q, hi, hq⟩
  have hno : ∀ {i : Nat} {q : Pc}, s.threads[i]? = some q → q.settling = true →
      ¬∀ q ∈ s.threads, q.settling = false := by
    intro i q hi hq hnone
    rw [hnone q (mem_of_getElem? hi)] at hq
    cases hq
  obtain ⟨q₀, hi, hq₀⟩ | ⟨rfl, hnone⟩ := hback i q hi hq
  · obtain ⟨q₁, hj, hq₁⟩ | ⟨-, hnone⟩ := hback j q' hj hq'
    · exact h.alone i j q₀ q₁ hi hj hq₀ hq₁
    · exact absurd hnone (hno hi hq₀)
  · obtain ⟨q₁, hj, hq₁⟩ | ⟨rfl, -⟩ := hback j q' hj hq'
    · exact absurd hnone (hno hj hq₁)
    · rfl

theorem Consistent.phase_set (h : Consistent cfg s) (ht : s.threads[t]? = some p)
    (hp' : p.awaitsStop = true → p'.awaitsStop = true ∨ s.core.Halted) :
    s.burst.sampling = true ∨ (∃ p ∈ s.threads.set t p', p.awaitsStop = true) ∨
      s.core.Halted := by
  obtain h | ⟨q, hq, hstop⟩ | h := h.phase
  · exact .inl h
  · obtain rfl | hq := eq_or_mem_set ht hq p'
    · refine .inr ((hp' hstop).imp_left ?_)
      intro hstop'
      exact ⟨p', mem_set (List.getElem?_eq_some_iff.mp ht).1 p', hstop'⟩
    · exact .inr (.inl ⟨q, hq, hstop⟩)
  · exact .inr (.inr h)

theorem Consistent.goto (h : Consistent cfg s) (ht : s.threads[t]? = some p)
    (hok : PcOk cfg s.core p') (hemit : ∀ c quietMs, p' ≠ .closeEmit c quietMs)
    (hclosing : ∀ stage c, p' = .closing stage c → ∃ stage', p = .closing stage' c)
    (hphase : p.awaitsStop = true → p'.awaitsStop = true ∨ s.core.Halted) :
    Consistent cfg (s.goto t p') := by
  have hsettled : ∀ k w, Settled (s.goto t p') k w → Settled s k w := fun k w hs =>
    hs.of_set rfl rfl hemit
  refine ⟨h.sane, h.phase_set ht hphase, ?_, ?_, ?_, h.closed, ?_, h.wire⟩
  · intro q hq
    obtain hq | rfl := mem_or_eq_of_mem_set hq
    · exact h.threads q hq
    · exact hok
  · refine h.alone_set ht ?_
    intro hset
    cases p' with
    | closing stage c =>
      obtain ⟨stage', rfl⟩ := hclosing stage c rfl
      exact .inl rfl
    | _ => cases hset
  · intro stage c k w hq hs
    obtain hq | hq := mem_or_eq_of_mem_set hq
    · exact h.fresh stage c k w hq (hsettled k w hs)
    · obtain ⟨stage', rfl⟩ := hclosing stage c hq.symm
      exact h.fresh stage' c k w (mem_of_getElem? ht) (hsettled k w hs)
  · intro k w k' w' hs hs'
    exact h.ordered k w k' w' (hsettled k w hs) (hsettled k' w' hs')

theorem Consistent.goto_free (h : Consistent cfg s) (ht : s.threads[t]? = some p)
    (hp : p.awaitsStop = false) (hok : PcOk cfg s.core p')
    (hemit : ∀ c quietMs, p' ≠ .closeEmit c quietMs) (hset : p'.settling = false) :
    Consistent cfg (s.goto t p') := by
  refine h.goto ht hok hemit ?_ ?_
  · rintro stage c rfl
    cases hset
  · intro hstop
    rw [hp] at hstop
    cases hstop

/-! ## Changing the rest -/

def withCore (s : Adapter) (v : Core) : Adapter :=
  { s with clock := v.clock, burst := v.burst, running := v.running, spans := v.spans }

theorem Consistent.withCore (h : Consistent cfg s) {v : Core} (hsane : Sane v) (hclock : s.clock ≤ v.clock)
    (hphase : v.burst.sampling = true ∨ (∃ p ∈ s.threads, p.awaitsStop = true) ∨ v.Halted)
    (hclosing : ∀ stage c, .closing stage c ∈ s.threads → PcOk cfg v (.closing stage c))
    (hkept : ∀ k w, Settled s k w → Kept v k w) : Consistent cfg (s.withCore v) := by
  refine ⟨hsane, hphase, ?_, h.alone, h.fresh, fun k w hc => hkept k w (.inl hc), h.ordered, h.wire⟩
  intro q hq
  cases q with
  | openPoll now => exact (h.threads _ hq).trans hclock
  | closing stage c => exact hclosing stage c hq
  | closeEmit c quietMs => exact hkept _ _ (.inr ⟨c, quietMs, hq, rfl, rfl⟩)
  | _ => trivial

variable {v : Core} {b : BurstController} {k now : Nat} {w : SamplingWindow} {c : Closing}

theorem Consistent.tick (h : Consistent cfg s) (hle : s.clock ≤ now) (hlt : now < 2 ^ 64) :
    Consistent cfg { s with clock := now } := by
  have hs := h.sane
  refine h.withCore (v := { s.core with clock := now }) ?_ hle h.phase ?_ ?_
  · refine ⟨hs.clock_pos.trans_le hle, hlt, hs.burstStart_le.trans hle, hs.lastBurstEnd_le,
      hs.started, ?_, ?_⟩
    · intro r hr
      obtain ⟨hk, hstart, hclock⟩ := hs.running r hr
      exact ⟨hk, hstart, hclock.trans hle⟩
    · intro sp hsp
      obtain ⟨htill, hk⟩ := hs.spans sp hsp
      exact ⟨htill.trans hle, hk⟩
  · intro stage c hc
    obtain ⟨⟨h₁, h₂, h₃, h₄, h₅, h₆⟩, hended⟩ := h.threads _ hc
    refine ⟨⟨h₁, h₂, h₃, h₄, h₅, h₆⟩, ?_⟩
    intro hstage
    obtain ⟨h₁, h₂, h₃, h₄, h₅⟩ := hended hstage
    exact ⟨h₁, h₂, h₃, h₄, h₅⟩
  · intro k w hw
    have hk := h.kept hw
    refine ⟨hk.started, hk.straight, hk.endNs_pos, hk.mode, hk.own, hk.spans, hk.running, ?_⟩
    obtain ⟨h₁, h₂, h₃, h₄, h₅, h₆⟩ | hpast := hk.status
    · exact .inl ⟨h₁, h₂, h₃, h₄, h₅, h₆⟩
    · exact .inr ⟨hpast.earlier, hpast.expired.mono hle, hpast.later⟩

theorem Sane.withBurst (h : Sane v) (hstart : b.burstStartNs = v.burst.burstStartNs)
    (hbursts : b.bursts = v.burst.bursts) (hstarted : b.sampling = true → b.started = true)
    (hnext : b.lastBurstEndNs ≤ b.nextStartNs) : Sane { v with burst := b } := by
  refine ⟨h.clock_pos, h.clock_lt, hstart.trans_le h.burstStart_le, hnext, hstarted, ?_, ?_⟩
  · intro r hr
    dsimp only
    rw [hbursts, hstart]
    exact h.running r hr
  · intro sp hsp
    dsimp only
    rw [hbursts, hstart]
    exact h.spans sp hsp

theorem Kept.withBurst (h : Kept v k w) (hpast : Past v k w)
    (hstart : b.burstStartNs = v.burst.burstStartNs) (hbursts : b.bursts = v.burst.bursts)
    (hstarted : b.started = v.burst.started) : Kept { v with burst := b } k w := by
  refine ⟨hstarted.trans h.started, h.straight, h.endNs_pos, h.mode, h.own, h.spans, h.running,
    .inr ⟨?_, hpast.expired, ?_⟩⟩
  · exact hpast.earlier.trans_eq hbursts.symm
  · exact hpast.later.trans_eq hstart.symm

theorem Settles.keeps (h : Settles cfg v c) (hb : v.burst.Keeps b) : Settles cfg { v with burst := b } c :=
  ⟨hb.sampling.trans h.sampling, hb.started.trans h.started, h.burst.trans hb.bursts.symm,
    h.startNs.trans hb.burstStartNs.symm, hb.lastBurstEndNs.trans h.now,
    h.ran.imp_left hb.refused⟩

theorem Consistent.keeps (h : Consistent cfg s) (hb : s.burst.Keeps b) (hnext : b.lastBurstEndNs ≤ b.nextStartNs)
    (hkept : ∀ k w, Settled s k w → Kept { s.core with burst := b } k w) :
    Consistent cfg { s with burst := b } := by
  refine h.withCore (v := { s.core with burst := b })
    (h.sane.withBurst hb.burstStartNs hb.bursts ?_ hnext) le_rfl ?_ ?_ hkept
  · intro hsampling
    exact hb.started.trans (h.sane.started (hb.sampling.symm.trans hsampling))
  · refine h.phase.imp hb.sampling.trans (Or.imp_right ?_)
    rintro ⟨hrunning, hle⟩
    exact ⟨hrunning, hb.burstStartNs.trans_le (hle.trans_eq hb.lastBurstEndNs.symm)⟩
  · intro stage c hc
    obtain ⟨hset, hended⟩ := h.threads _ hc
    refine ⟨hset.keeps hb, ?_⟩
    intro hstage
    obtain ⟨h₁, h₂, h₃, h₄, h₅⟩ := hended hstage
    exact ⟨h₁, h₂, h₃, h₄, h₅⟩

theorem Consistent.same (h : Consistent cfg s) (hb : s.burst.Same b) : Consistent cfg { s with burst := b } := by
  have hnext := hb.nextStartNs
  refine h.keeps hb.toKeeps ?_ ?_
  · exact hb.lastBurstEndNs.trans_le (h.sane.lastBurstEnd_le.trans_eq hnext.symm)
  · intro k w hw
    have hk := h.kept hw
    refine ⟨hb.started.trans hk.started, hk.straight, hk.endNs_pos, hk.mode, hk.own, hk.spans, hk.running, ?_⟩
    obtain hbound | hpast := hk.status
    · refine .inl ⟨hbound.last.trans hb.bursts.symm, hb.sampling.trans hbound.sampling,
        hbound.running, ?_, ?_, ?_⟩
      · exact hbound.later.imp hb.refused (·.trans_eq hnext.symm)
      · exact fun hn => hb.refused (hbound.never hn)
      · exact fun hn => (hbound.quiet hn).trans_eq hnext.symm
    · exact .inr ⟨hpast.earlier.trans_eq hb.bursts.symm, hpast.expired,
        hpast.later.trans_eq hb.burstStartNs.symm⟩

theorem settling_of_awaitsStop (h : p.awaitsStop = true) : p.settling = true := by
  cases p with
  | closing stage c => rfl
  | _ => cases h

theorem Consistent.halted (h : Consistent cfg s) (hsampling : s.burst.sampling = false)
    (hnone : ∀ p ∈ s.threads, p.settling = false) : s.core.Halted := by
  obtain hs | ⟨p, hp, hstop⟩ | hhalted := h.phase
  · rw [hsampling] at hs
    cases hs
  · have hset := settling_of_awaitsStop hstop
    rw [hnone p hp] at hset
    cases hset
  · exact hhalted

theorem Consistent.opened (h : Consistent cfg s) (hb : s.burst.Opened now b)
    (hnow : now ≤ s.clock) (hnone : ∀ p ∈ s.threads, p.settling = false) :
    Consistent cfg { s with burst := b } := by
  have hs := h.sane
  obtain ⟨hrunning, hended⟩ := h.halted hb.was hnone
  refine h.withCore (v := { s.core with burst := b }) ?_ le_rfl (.inl hb.sampling) ?_ ?_
  · refine ⟨hs.clock_pos, hs.clock_lt, hb.burstStartNs.trans_le hnow, ?_, fun _ => hb.started,
      ?_, ?_⟩
    · exact hb.lastBurstEndNs.trans_le (hs.lastBurstEnd_le.trans_eq hb.nextStartNs.symm)
    · intro r hr
      rw [hrunning] at hr
      cases hr
    · intro sp hsp
      obtain ⟨htill, hk, -⟩ := hs.spans sp hsp
      have hbursts := hb.bursts
      exact ⟨htill, by dsimp only [core] at *; omega, fun heq => by dsimp only [core] at *; omega⟩
  · intro stage c hc
    cases hnone _ hc
  · intro k w hw
    have hk := h.kept hw
    have hdue : s.burst.nextStartNs ≤ now := hb.due hk.started
    have hrefused : s.burst.refused ≠ true := by
      rw [hb.refused]
      nofun
    refine ⟨hb.started, hk.straight, hk.endNs_pos, hk.mode, hk.own, hk.spans, hk.running, .inr ?_⟩
    obtain hbound | hpast := hk.status
    · refine ⟨?_, ⟨fun hn => hrefused (hbound.never hn), ?_⟩, ?_⟩
      · exact (hbound.last.trans_lt (Nat.lt_succ_self _)).trans_eq hb.bursts.symm
      · exact (hbound.quiet fun hn => hrefused (hbound.never hn)).trans (hdue.trans hnow)
      · exact ((hbound.later.resolve_left hrefused).trans_le hdue).trans_eq hb.burstStartNs.symm
    · refine ⟨?_, hpast.expired, ?_⟩
      · exact (hpast.earlier.trans (Nat.lt_succ_self _)).trans_eq hb.bursts.symm
      · have hle := hended.trans (hs.lastBurstEnd_le.trans hdue)
        exact (hpast.later.trans_le hle).trans_eq hb.burstStartNs.symm

theorem Consistent.not_settling (h : Consistent cfg s) (hsampling : s.burst.sampling = true) :
    ∀ p ∈ s.threads, p.settling = false := by
  intro p hp
  cases p with
  | closing stage c =>
    have hno : s.burst.sampling = false := (h.threads _ hp).1.sampling
    rw [hsampling] at hno
    cases hno
  | _ => rfl

theorem Consistent.past_of_sampling (h : Consistent cfg s) (hsampling : s.burst.sampling = true)
    (hw : Settled s k w) : Past s.core k w := by
  refine (h.kept hw).status.resolve_left ?_
  intro hbound
  have hno : s.burst.sampling = false := hbound.sampling
  rw [hsampling] at hno
  cases hno

theorem Consistent.start (h : Consistent cfg s) (hsampling : s.burst.sampling = true)
    (hk : s.burst.bursts = k) : Consistent cfg { s with running := (k, s.clock) :: s.running } := by
  have hs := h.sane
  refine h.withCore (v := { s.core with running := (k, s.clock) :: s.running }) ?_ le_rfl (.inl hsampling) ?_ ?_
  · refine ⟨hs.clock_pos, hs.clock_lt, hs.burstStart_le, hs.lastBurstEnd_le, hs.started, ?_,
      hs.spans⟩
    intro r hr
    obtain rfl | hr := mem_cons.mp hr
    · exact ⟨hk.symm, hs.burstStart_le, le_rfl⟩
    · exact hs.running r hr
  · intro stage c hc
    cases h.not_settling hsampling _ hc
  · intro k' w hw
    have hkept := h.kept hw
    obtain ⟨hearlier, hover, hlater⟩ := h.past_of_sampling hsampling hw
    refine ⟨hkept.started, hkept.straight, hkept.endNs_pos, hkept.mode, hkept.own, hkept.spans, ?_,
      .inr ⟨hearlier, hover, hlater⟩⟩
    intro r hr
    obtain rfl | hr := mem_cons.mp hr
    · exact ⟨hk ▸ hearlier, hover⟩
    · exact hkept.running r hr

theorem Consistent.past (h : Consistent cfg s) {stage : Stage} (hc : .closing stage c ∈ s.threads)
    (hw : Settled s k w) : Past s.core k w := by
  have hlt := h.fresh stage c k w hc hw
  rw [(h.threads _ hc).1.burst] at hlt
  refine (h.kept hw).status.resolve_left ?_
  intro hbound
  exact absurd hbound.last hlt.ne

theorem Consistent.closing_unique (h : Consistent cfg s) {stage stage' : Stage} {c' : Closing}
    (ht : s.threads[t]? = some (.closing stage c)) (hc : .closing stage' c' ∈ s.threads) :
    stage' = stage ∧ c' = c := by
  obtain ⟨i, hi⟩ := mem_iff_getElem?.mp hc
  obtain rfl := h.alone i t _ _ hi ht rfl rfl
  rw [hi] at ht
  simpa using ht

theorem Consistent.yield (h : Consistent cfg s) {stage : Stage}
    (hc : .closing stage c ∈ s.threads) (hb : s.burst.Adapted b) :
    Consistent cfg { s with burst := b } := by
  refine h.keeps hb.toKeeps ?_ ?_
  · exact hb.lastBurstEndNs.trans_le (hb.nextStartNs h.sane.lastBurstEnd_le)
  · intro k w hw
    exact (h.kept hw).withBurst (h.past hc hw) hb.burstStartNs hb.bursts hb.started

theorem Consistent.stop (h : Consistent cfg s) (ht : s.threads[t]? = some (.closing .stop c))
    (hclock : s.clock = c.now) :
    Consistent cfg { s with
      running := []
      spans := s.running.map (fun r => ⟨r.1, r.2, s.clock⟩) ++ s.spans } := by
  have hs := h.sane
  have hmem := mem_of_getElem? ht
  have hset := (h.threads _ hmem).1
  refine h.withCore (v := ⟨s.clock, s.burst, [],
    s.running.map (fun r => ⟨r.1, r.2, s.clock⟩) ++ s.spans⟩) ?_ le_rfl ?_ ?_ ?_
  · refine ⟨hs.clock_pos, hs.clock_lt, hs.burstStart_le, hs.lastBurstEnd_le, hs.started, nofun, ?_⟩
    intro sp hsp
    obtain hsp | hsp := mem_append.mp hsp
    · obtain ⟨r, hr, rfl⟩ := mem_map.mp hsp
      obtain ⟨hk, hstart, -⟩ := hs.running r hr
      exact ⟨le_rfl, hk.le, fun _ => hstart⟩
    · exact hs.spans sp hsp
  · refine .inr (.inr ⟨rfl, ?_⟩)
    exact hs.burstStart_le.trans_eq (hclock.trans hset.now.symm)
  · intro stage' c' hc'
    obtain ⟨rfl, rfl⟩ := h.closing_unique ht hc'
    obtain ⟨h₁, h₂, h₃, h₄, h₅, h₆⟩ := hset
    exact ⟨⟨h₁, h₂, h₃, h₄, h₅, h₆⟩, nofun⟩
  · intro k w hw
    have hk := h.kept hw
    obtain ⟨hearlier, hover, hlater⟩ := h.past hmem hw
    refine ⟨hk.started, hk.straight, hk.endNs_pos, hk.mode, ?_, ?_, nofun, .inr ⟨hearlier, hover, hlater⟩⟩
    · intro sp hsp hburst
      obtain hsp | hsp := mem_append.mp hsp
      · obtain ⟨r, hr, rfl⟩ := mem_map.mp hsp
        exact absurd hburst (hk.running r hr).1.ne'
      · exact hk.own sp hsp hburst
    · intro sp hsp
      obtain hsp | hsp := mem_append.mp hsp
      · obtain ⟨r, hr, rfl⟩ := mem_map.mp hsp
        exact .inr (hk.running r hr).2
      · exact hk.spans sp hsp

theorem Sane.ended (h : Sane v) (hset : Settles cfg v c) (hrunning : v.running = [])
    (hclock : v.clock = c.now) : Ended v c := by
  refine ⟨hrunning, ?_, ?_, hclock ▸ h.clock_pos, hclock ▸ h.clock_lt⟩
  · intro sp hsp
    exact (h.spans sp hsp).1.trans_eq hclock
  · exact hset.startNs.trans_le (h.burstStart_le.trans_eq hclock)

theorem Consistent.close (h : Consistent cfg s) (ht : s.threads[t]? = some p) (hb : s.burst.Stopped cfg now b) :
    Consistent cfg { s.goto t (.closing .guard ⟨now, s.burst.burstStartNs, b.bursts⟩) with
      burst := b } := by
  have hs := h.sane
  have hnone := h.not_settling hb.was
  have hlt := (List.getElem?_eq_some_iff.mp ht).1
  have hsettled : ∀ {k w}, Settled { s.goto t (.closing .guard
      ⟨now, s.burst.burstStartNs, b.bursts⟩) with burst := b } k w → Settled s k w := fun hw =>
    hw.of_set rfl rfl (fun _ _ => nofun)
  have hkept : ∀ {k w}, Settled s k w → Kept { s.core with burst := b } k w := fun hw =>
    (h.kept hw).withBurst (h.past_of_sampling hb.was hw) hb.burstStartNs hb.bursts hb.started
  refine ⟨?_, .inr (.inl ⟨_, mem_set hlt _, rfl⟩), ?_, ?_, ?_, ?_, ?_, h.wire⟩
  · refine hs.withBurst hb.burstStartNs hb.bursts ?_ (hb.lastBurstEndNs.trans_le hb.nextStartNs)
    intro hno
    rw [hb.sampling] at hno
    cases hno
  · intro q hq
    obtain hq | rfl := mem_or_eq_of_mem_set hq
    · cases q with
      | openPoll now => exact h.threads _ hq
      | closing stage c => cases hnone _ hq
      | closeEmit c quietMs => exact hkept (.inr ⟨c, quietMs, hq, rfl, rfl⟩)
      | _ => trivial
    · refine ⟨⟨hb.sampling, hb.started.trans (hs.started hb.was), rfl, hb.burstStartNs.symm,
        hb.lastBurstEndNs, hb.ran⟩, nofun⟩
  · exact h.alone_set ht fun _ => .inr hnone
  · intro stage c k w hq hw
    obtain hq | hq := mem_or_eq_of_mem_set hq
    · cases hnone _ hq
    · cases hq
      exact (h.past_of_sampling hb.was (hsettled hw)).earlier.trans_eq hb.bursts.symm
  · intro k w hc
    exact hkept (.inl hc)
  · intro k w k' w' hw hw'
    exact h.ordered k w k' w' (hsettled hw) (hsettled hw')

/-! ## Settling a record -/

theorem Settles.later (h : Settles cfg v c) (hended : Ended v c) : v.burst.refused = true ∨ c.startNs < c.now := by
  refine h.ran.imp_right ?_
  intro hran
  have hpos := cfg.burstNs_pos
  have hle := hended.straight
  have hlt := hended.now_lt
  have heq : BurstController.elapsed c.now c.startNs = c.now - c.startNs := by
    rw [BurstController.elapsed]
    omega
  omega

theorem Sane.kept (h : Sane v) (hset : Settles cfg v c) (hended : Ended v c)
    (hnever : quietMs = kWindowQuietNever → v.burst.refused = true) (hquiet : quietMs ≠ kWindowQuietNever →
      c.now + quietMs * 1000000 ≤ v.burst.nextStartNs) : Kept v c.burst (windowRecord c.startNs c.now quietMs) := by
  refine ⟨hset.started, hended.straight, hended.now_pos, rfl, ?_, ?_, ?_, .inl ?_⟩
  · intro sp hsp hburst
    have hstart := (h.spans sp hsp).2.2 (hburst.trans hset.burst)
    exact ⟨hset.startNs.trans_le hstart, hended.spans sp hsp⟩
  · intro sp hsp
    exact .inl (hended.spans sp hsp)
  · intro r hr
    rw [hended.running] at hr
    cases hr
  · refine ⟨hset.burst, hset.sampling, hended.running, ?_, hnever, hquiet⟩
    refine (hset.later hended).imp_right ?_
    intro hlt
    exact hlt.trans_le (hset.now.symm.trans_le h.lastBurstEnd_le)

theorem awaitsStop_of_stopped {stage : Stage} (h : stage.stopped = true) : (Pc.closing stage c).awaitsStop = false := by
  cases stage <;> first | rfl | cases h

theorem Consistent.settle (h : Consistent cfg s) {stage : Stage} (ht : s.threads[t]? = some (.closing stage c))
    (hstage : stage.stopped = true) (hnever : quietMs = kWindowQuietNever → s.burst.refused = true)
    (hquiet : quietMs ≠ kWindowQuietNever →
      c.now + quietMs * 1000000 ≤ s.burst.nextStartNs) : Consistent cfg (s.goto t (.closeEmit c quietMs)) := by
  have hmem := mem_of_getElem? ht
  obtain ⟨hset, hended⟩ := h.threads _ hmem
  have hkept := h.sane.kept hset (hended hstage) hnever hquiet
  -- what is settled now was so before, or is this record, and then the burst is the last one
  have hsettled : ∀ k w, Settled (s.goto t (.closeEmit c quietMs)) k w → Settled s k w ∨
      (k = c.burst ∧ w = windowRecord c.startNs c.now quietMs) := by
    rintro k w (hc | ⟨c', quietMs', hp, hk, hw⟩)
    · exact .inl (.inl hc)
    · obtain hp | hp := mem_or_eq_of_mem_set hp
      · exact .inl (.inr ⟨c', quietMs', hp, hk, hw⟩)
      · cases hp
        exact .inr ⟨hk.symm, hw.symm⟩
  refine ⟨h.sane, h.phase_set ht ?_, ?_, h.alone_set ht nofun, ?_, h.closed, ?_, h.wire⟩
  · intro hstop
    rw [awaitsStop_of_stopped hstage] at hstop
    cases hstop
  · intro q hq
    obtain hq | rfl := mem_or_eq_of_mem_set hq
    · exact h.threads q hq
    · exact hkept
  · intro stage' c' k w hq
    -- no other thread is closing a burst, and this one is past it
    obtain ⟨i, hi⟩ := mem_iff_getElem?.mp hq
    by_cases hit : t = i
    · subst hit
      rw [Adapter.goto, getElem?_set_self (List.getElem?_eq_some_iff.mp ht).1] at hi
      cases hi
    · rw [Adapter.goto, getElem?_set_ne hit] at hi
      exact absurd (h.alone t i _ _ ht hi rfl rfl) hit
  · rintro k w k' w' hw hw'
    obtain hw | ⟨rfl, rfl⟩ := hsettled k w hw
    · obtain hw' | ⟨rfl, rfl⟩ := hsettled k' w' hw'
      · exact h.ordered k w k' w' hw hw'
      · have hlt := h.fresh stage c k w hmem hw
        have hlater := (h.past hmem hw).later
        exact ⟨fun _ => hlater.trans_eq hset.startNs.symm, fun heq => absurd heq hlt.ne⟩
    · obtain hw' | ⟨rfl, rfl⟩ := hsettled k' w' hw'
      · have hlt := h.fresh stage c k' w' hmem hw'
        exact ⟨fun hgt => absurd hgt hlt.asymm, fun heq => absurd heq.symm hlt.ne⟩
      · exact ⟨fun hlt => absurd hlt (lt_irrefl _), fun _ => rfl⟩

/-! ## Emitting a record -/

theorem Consistent.emit (h : Consistent cfg s) (attached : Bool) (hw : w.endNs = 0) :
    Consistent cfg (s.emit attached w) := by
  cases attached with
  | false => exact h
  | true =>
    refine ⟨h.sane, h.phase, h.threads, h.alone, h.fresh, h.closed, h.ordered, ?_⟩
    intro w' hw'
    obtain hw' | hw' := mem_append.mp hw'
    · exact h.wire w' hw'
    · rw [mem_singleton.mp hw']
      exact .inl hw

theorem Consistent.emitClosed (h : Consistent cfg s) (ht : s.threads[t]? = some (.closeEmit c quietMs))
    (attached : Bool) :
    Consistent cfg { (s.goto t .idle).emit attached (windowRecord c.startNs c.now quietMs) with
      closed := if attached then (c.burst, windowRecord c.startNs c.now quietMs) :: s.closed
        else s.closed } := by
  have hidle : Consistent cfg (s.goto t .idle) :=
    h.goto_free ht rfl trivial (fun _ _ => nofun) rfl
  cases attached with
  | false => exact hidle
  | true =>
    have hthis : Settled s c.burst (windowRecord c.startNs c.now quietMs) :=
      .inr ⟨c, quietMs, mem_of_getElem? ht, rfl, rfl⟩
    have hsettled : ∀ {k w}, Settled { (s.goto t .idle).emit true
        (windowRecord c.startNs c.now quietMs) with
          closed := (c.burst, windowRecord c.startNs c.now quietMs) :: s.closed } k w →
        Settled s k w := by
      rintro k w (hc | ⟨c', quietMs', hp, hk, hw⟩)
      · obtain hc | hc := mem_cons.mp hc
        · cases hc
          exact hthis
        · exact .inl hc
      · obtain hp | hp := mem_or_eq_of_mem_set hp
        · exact .inr ⟨c', quietMs', hp, hk, hw⟩
        · cases hp
    refine ⟨h.sane, hidle.phase, hidle.threads, hidle.alone, ?_, ?_, ?_, ?_⟩
    · intro stage c' k w hq hw
      obtain hq | hq := mem_or_eq_of_mem_set hq
      · exact h.fresh stage c' k w hq (hsettled hw)
      · cases hq
    · intro k w hc
      exact h.kept (hsettled (.inl hc))
    · intro k w k' w' hw hw'
      exact h.ordered k w k' w' (hsettled hw) (hsettled hw')
    · intro w hw
      obtain hw | hw := mem_append.mp hw
      · refine (h.wire w hw).imp_right ?_
        rintro ⟨k, hk⟩
        exact ⟨k, mem_cons_of_mem _ hk⟩
      · rw [mem_singleton.mp hw]
        exact .inr ⟨c.burst, mem_cons_self⟩

/-! ## One step -/

theorem pollStop_cases (cfg : BurstConfig) (b : BurstController) (now : Nat) (graphs teardown : Bool) :
    ((b.pollStop cfg now graphs teardown).2 = .none ∧ b.Same (b.pollStop cfg now graphs teardown).1) ∨
      ((b.pollStop cfg now graphs teardown).2 = .stop ∧ b.Stopped cfg now (b.pollStop cfg now graphs teardown).1) := by
  unfold BurstController.pollStop
  split
  next => exact b.shutdown_cases cfg now
  next => exact b.pollClose_cases cfg now graphs

variable {o : Observed}

theorem Consistent.advance_closing (h : Consistent cfg s) {stage : Stage}
    (ht : s.threads[t]? = some (.closing stage c)) (hturn : s.InTurn cfg (.advance t o))
    (hstep : s.advance cfg t o (.closing stage c) = some s') : Consistent cfg s' := by
  have hmem := mem_of_getElem? ht
  obtain ⟨hset, hended⟩ := h.threads _ hmem
  -- from one stage to another, with the stop already made
  have hmove : ∀ stage', stage.stopped = true → Consistent cfg (s.goto t (.closing stage' c)) := by
    intro stage' hstage
    refine h.goto ht ⟨hset, fun _ => hended hstage⟩ (fun _ _ heq => by cases heq) ?_ ?_
    · rintro stage'' c' heq
      cases heq
      exact ⟨stage, rfl⟩
    · intro hstop
      rw [awaitsStop_of_stopped hstage] at hstop
      cases hstop
  cases stage with
  | guard =>
    obtain rfl := acquire_eq_some hstep
    have hok : PcOk cfg s.core (.closing .stop c) := ⟨hset, fun hstop => by cases hstop⟩
    refine (h.goto ht hok (fun _ _ heq => by cases heq) ?_ (fun _ => .inl rfl)).guard _
    rintro stage' c' heq
    cases heq
    exact ⟨.guard, rfl⟩
  | stop =>
    simp only [InTurn, ht] at hturn
    obtain rfl := Option.some.inj hstep
    have hstop := h.stop ht hturn
    have hset' := (hstop.threads _ hmem).1
    refine hstop.goto ht ⟨hset', fun _ => hstop.sane.ended hset' rfl hturn⟩ (fun _ _ heq => by cases heq) ?_ ?_
    · rintro stage' c' heq
      cases heq
      exact ⟨.stop, rfl⟩
    · intro _
      exact .inr ⟨rfl, h.sane.burstStart_le.trans_eq (hturn.trans hset.now.symm)⟩
  | drain =>
    obtain rfl := Option.some.inj hstep
    exact hmove .leave rfl
  | leave =>
    obtain rfl := Option.some.inj hstep
    exact (hmove .yield rfl).guard none
  | yield =>
    obtain rfl := Option.some.inj hstep
    have hyield := (hmove .refused rfl).yield (mem_set (List.getElem?_eq_some_iff.mp ht).1 _)
      (BurstController.adapted_closed cfg s.burst o.pairs)
    exact hyield
  | refused =>
    obtain rfl := Option.some.inj hstep
    split
    next hrefused =>
      exact h.settle ht rfl (fun _ => hrefused) fun hne => absurd (Eq.refl kWindowQuietNever) hne
    next => exact hmove .next rfl
  | next =>
    obtain rfl := Option.some.inj hstep
    refine h.settle ht rfl (fun heq => absurd heq (burstQuietMs_ne_never _ _)) ?_
    intro _
    exact burstQuietMs_le (hset.now.symm.trans_le h.sane.lastBurstEnd_le)

theorem Consistent.advance (h : Consistent cfg s) (ht : s.threads[t]? = some p)
    (hturn : s.InTurn cfg (.advance t o)) (hstep : s.advance cfg t o p = some s') :
    Consistent cfg s' := by
  have hfree : ∀ p', p.awaitsStop = false → PcOk cfg s.core p' →
      (∀ c quietMs, p' ≠ .closeEmit c quietMs) → p'.settling = false →
      Consistent cfg (s.goto t p') := fun p' hp => h.goto_free ht hp
  cases p with
  | idle => cases hstep
  | openPoll now =>
    simp only [InTurn, ht] at hturn
    obtain rfl := Option.some.inj hstep
    obtain ⟨hnone, hsame⟩ | ⟨hstart, hopened⟩ := s.burst.pollOpen_cases now o.graphs
    · rw [hnone, if_neg (fun heq => by cases heq)]
      exact (hfree .idle rfl trivial (fun _ _ heq => by cases heq) rfl).same hsame
    · rw [if_pos hstart]
      have hopen := h.opened hopened (h.threads _ (mem_of_getElem? ht)) (hturn hstart)
      exact hopen.goto_free ht rfl trivial (fun _ _ heq => by cases heq) rfl
  | openGuard now k =>
    obtain rfl := acquire_eq_some hstep
    exact (hfree (.openStart now k) rfl trivial (fun _ _ heq => by cases heq) rfl).guard _
  | openStart now k =>
    simp only [InTurn, ht] at hturn
    obtain rfl := Option.some.inj hstep
    exact (h.start hturn.1 hturn.2).goto_free ht rfl trivial (fun _ _ heq => by cases heq) rfl
  | openLeave now =>
    obtain rfl := Option.some.inj hstep
    exact (hfree (.openEmit now) rfl trivial (fun _ _ heq => by cases heq) rfl).guard none
  | openEmit now =>
    obtain rfl := Option.some.inj hstep
    exact (hfree .idle rfl trivial (fun _ _ heq => by cases heq) rfl).emit o.attached rfl
  | closeRead now teardown =>
    obtain rfl := Option.some.inj hstep
    exact hfree (.closePoll now s.burst.burstStartNs teardown) rfl trivial (fun _ _ heq => by cases heq) rfl
  | closePoll now startNs teardown =>
    simp only [InTurn, ht] at hturn
    obtain rfl := Option.some.inj hstep
    obtain ⟨hnone, hsame⟩ | ⟨hstop, hstopped⟩ :=
      pollStop_cases cfg s.burst now o.graphs teardown
    · rw [hnone, if_neg (fun heq => by cases heq)]
      exact (hfree .idle rfl trivial (fun _ _ heq => by cases heq) rfl).same hsame
    · rw [if_pos hstop, hturn hstop]
      exact h.close ht hstopped
  | closing stage c => exact h.advance_closing ht hturn hstep
  | closeEmit c quietMs =>
    obtain rfl := Option.some.inj hstep
    exact h.emitClosed ht o.attached
  | timerGuard =>
    obtain rfl := acquire_eq_some hstep
    exact (hfree .timerDrain rfl trivial (fun _ _ heq => by cases heq) rfl).guard _
  | timerDrain =>
    obtain rfl := Option.some.inj hstep
    exact (hfree .idle rfl trivial (fun _ _ heq => by cases heq) rfl).guard none

theorem Consistent.enter (h : Consistent cfg s) (hstep : s.enter t p' = some s')
    (hok : PcOk cfg s.core p') (hemit : ∀ c quietMs, p' ≠ .closeEmit c quietMs)
    (hset : p'.settling = false) : Consistent cfg s' := by
  unfold Adapter.enter at hstep
  split at hstep
  next ht =>
    obtain rfl := Option.some.inj hstep
    exact h.goto_free ht rfl hok hemit hset
  next => cases hstep

theorem Consistent.step (h : Consistent cfg s) {a : Action} (hturn : s.InTurn cfg a)
    (hstep : s.step cfg a = some s') : Consistent cfg s' := by
  cases a with
  | tick now =>
    simp only [Adapter.step] at hstep
    split at hstep
    next hle =>
      obtain rfl := Option.some.inj hstep
      exact h.tick hle.1 hle.2
    next => cases hstep
  | launchEnter t => exact h.enter hstep le_rfl (fun _ _ => nofun) rfl
  | launchExit t => exact h.enter hstep trivial (fun _ _ => nofun) rfl
  | shutdown t => exact h.enter hstep trivial (fun _ _ => nofun) rfl
  | timer t => exact h.enter hstep trivial (fun _ _ => nofun) rfl
  | advance t o =>
    obtain ⟨p, ht, hstep⟩ := Option.bind_eq_some_iff.mp hstep
    exact h.advance ht hturn hstep

/-! ## Every run -/

theorem Kept.not_promises (h : Kept s.core k w) {k' : Nat} (ht : s.StartedAt k' t) : ¬Promises w t := by
  rintro ⟨hafter, hquiet⟩
  have hover : ¬Over w t := by
    rintro ⟨hne, hle⟩
    exact hquiet.elim hne (Nat.not_lt.mpr hle)
  obtain ⟨sp, hsp, -, hsince, htill⟩ | ⟨a, ha, hsince, -⟩ := ht
  · obtain hend | hsp := h.spans sp hsp
    · exact absurd hafter (Nat.not_lt.mpr (htill.trans hend))
    · exact hover (hsp.mono hsince)
  · exact hover ((h.running _ ha).2.mono hsince)

theorem Kept.covers (h : Kept s.core k w) (ht : s.StartedAt k t) : w.startNs ≤ t ∧ t ≤ w.endNs := by
  obtain ⟨sp, hsp, hk, hsince, htill⟩ | ⟨a, ha, -⟩ := ht
  · obtain ⟨hstart, hend⟩ := h.own sp hsp hk
    exact ⟨hstart.trans hsince, htill.trans hend⟩
  · exact absurd (h.running _ ha).1 (Nat.lt_irrefl k)

theorem Consistent.agree (h : Consistent cfg s) {ws : List GPUSamplingWindow}
    (hws : (ws.map WindowSet.ofRecord).Sublist s.wire) : WindowSet.Agree ws := by
  have hclosed : ∀ r ∈ ws, (WindowSet.ofRecord r).isOpen = false → ∃ k, Settled s k (WindowSet.ofRecord r) := by
    intro r hr hopen
    obtain hzero | ⟨k, hk⟩ := h.wire _ (hws.subset (mem_map_of_mem hr))
    · simp [SamplingWindow.isOpen, hzero] at hopen
    · exact ⟨k, .inl hk⟩
  intro r hr r' hr' hopen hopen' hstart
  obtain ⟨k, hk⟩ := hclosed r hr hopen
  obtain ⟨k', hk'⟩ := hclosed r' hr' hopen'
  obtain hlt | heq | hgt := Nat.lt_trichotomy k k'
  · exact absurd hstart ((h.ordered _ _ _ _ hk hk').1 hlt).ne
  · exact (h.ordered _ _ _ _ hk hk').2 heq
  · exact absurd hstart ((h.ordered _ _ _ _ hk' hk).1 hgt).ne'

theorem Consistent.discloses (h : Consistent cfg s) : s.Discloses := by
  constructor
  · intro k w t hc ht
    exact (h.closed k w hc).covers ht
  · intro k w k' t hc ht
    exact (h.closed k w hc).not_promises ht
  · intro k w t hc ht maxPerPID maxPIDs pid ws hpid hws hw hroom x y hx hy
    have hkept := h.closed k w hc
    obtain ⟨hstart, hend⟩ := hkept.covers ht
    have hstraight : ∀ r ∈ ws, r.endNs = 0 ∨ r.startNs ≤ r.endNs := by
      intro r hr
      refine (h.wire _ (hws.subset (mem_map_of_mem hr))).imp_right ?_
      rintro ⟨k', hk'⟩
      exact (h.closed k' _ hk').straight
    have hclosed : w.isOpen = false := beq_false_of_ne hkept.endNs_pos.ne'
    rw [WindowStore.classify_of_held hpid hstraight (h.agree hws) hroom hw hclosed hkept.mode
      (hx.trans hy) (hx.trans hend) (hstart.trans hy)]
    nofun

/-- In every run in which bursts take turns, whatever the interleaving of the launching
threads and the timer, the closed records cover the serialized spans. -/
theorem disclosure_covers {n : Nat} {as : List Action}
    (h : Run (fun s a s' => s.InTurn cfg a ∧ s.step cfg a = some s') (new cfg n) as s) :
    s.Discloses := by
  have hconsistent : Consistent cfg s := by
    refine Run.invariant (I := fun _ s => Consistent cfg s) (consistent_new cfg n) ?_ h
    rintro as s a s' - hs ⟨hturn, hstep⟩
    exact hs.step hturn hstep
  exact hconsistent.discloses

/-! ## The missing tail -/

instance (cfg : BurstConfig) (s : Adapter) : DecidablePred (s.InTurn cfg) := fun a => by
  cases a with
  | advance t o =>
    dsimp only [InTurn]
    cases s.threads[t]? with
    | none => exact .isTrue trivial
    | some p =>
      cases p with
      | closing stage c =>
        cases stage with
        | stop => dsimp only; infer_instance
        | _ => exact .isTrue trivial
      | _ => dsimp only; infer_instance
  | _ => exact .isTrue trivial

/-- Bursts of 50 ms and a duty of a twentieth: the gap functions of the default settings, on
bursts that yield nothing. -/
def defaultDuty : BurstConfig where
  burstNs := 50000000
  minGapForNs dur := min (19 * dur) 10000000000
  nextGapNs _ _ _ := 950000000
  burstNs_pos := Nat.succ_pos 49999999

/-- Thread `t` takes `n` steps. -/
def steps (t n : Nat) : List Action := List.replicate n (.advance t {})

/-- A thread opens a burst and closes it when its length is over, `late` nanoseconds after it
has read the clock, for which long the drain timer holds the guard. -/
def oneBurst (late : Nat) : List Action :=
  [.tick 1000000000, .launchEnter 0] ++ steps 0 5 ++
  [.tick 1050000000, .timer 1] ++ steps 1 1 ++ [.launchExit 0] ++ steps 0 2 ++
  [.tick (1050000000 + late)] ++ steps 1 1 ++ steps 0 8

/-- With a prompt stop the window is the span. -/
theorem disclosure_covers_prompt_stop : ∃ s, Run (fun s a s' => s.InTurn defaultDuty a ∧ s.step defaultDuty a = some s')
        (new defaultDuty 2) (oneBurst 0) s ∧
      s.spans = [⟨1, 1000000000, 1050000000⟩] ∧
      s.closed = [(1, ⟨1000000000, 1050000000, .kernelSerialized, 950⟩)] ∧ s.Discloses := by
  obtain ⟨s, hrun, hp⟩ := exists_guarded_run (step defaultDuty) (InTurn defaultDuty)
    (new defaultDuty 2) (oneBurst 0) (fun s => s.spans = [⟨1, 1000000000, 1050000000⟩] ∧
      s.closed = [(1, ⟨1000000000, 1050000000, .kernelSerialized, 950⟩)]) (by decide +kernel)
  obtain ⟨hspans, hclosed⟩ := of_decide_eq_true hp
  exact ⟨s, hrun, hspans, hclosed, disclosure_covers hrun⟩

def delivered (w : SamplingWindow) : GPUSamplingWindow where
  pid := 7
  startNs := w.startNs
  endNs := w.endNs
  mode := w.mode
  nextStartDeltaMs := w.quietMs

/-- When the stop has to wait for the guard, the end of the span is not in the window but in
the quiet interval, and an execution there is called not serialized. -/
theorem disclosure_misses_tail :
    ∃ s, Run (fun s a s' => s.step defaultDuty a = some s') (new defaultDuty 2) (oneBurst 400) s ∧
      s.StartedAt 1 1050000300 ∧
      ((newWindowStore 0 0).run (s.wire.map delivered)).classify 7 1050000200 1050000300 =
        .notSerialized ∧ ¬s.Discloses := by
  obtain ⟨s, hrun, hp⟩ := @exists_run _ _ (step defaultDuty) (new defaultDuty 2) (oneBurst 400)
    (fun s => s.spans = [⟨1, 1000000000, 1050000400⟩] ∧
      s.closed = [(1, ⟨1000000000, 1050000000, .kernelSerialized, 950⟩)] ∧
      s.wire = [⟨1000000000, 0, .kernelSerialized, 0⟩,
        ⟨1000000000, 1050000000, .kernelSerialized, 950⟩]) (by decide +kernel)
  obtain ⟨hspans, hclosed, hwire⟩ := of_decide_eq_true hp
  have hstarted : s.StartedAt 1 1050000300 := by
    refine .inl ⟨_, hspans ▸ mem_singleton_self _, rfl, ?_, ?_⟩ <;> decide
  have hmissed : ((newWindowStore 0 0).run (s.wire.map delivered)).classify 7 1050000200
      1050000300 = .notSerialized := by
    rw [hwire]
    decide +kernel
  refine ⟨s, hrun, hstarted, hmissed, ?_⟩
  intro hdiscloses
  refine hdiscloses.classified (hclosed ▸ mem_singleton_self _) hstarted ?_ ?_ ?_ ?_ (by decide) le_rfl hmissed
  · intro r hr
    obtain ⟨w, -, rfl⟩ := mem_map.mp hr
    rfl
  · rw [map_map]
    exact (map_id' s.wire).symm ▸ List.Sublist.refl _
  · rw [hwire]
    decide
  · rw [hwire]
    decide

end Adapter
end PerfAgent.Shim
