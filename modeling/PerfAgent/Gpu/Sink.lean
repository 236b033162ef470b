import Mathlib.Algebra.Order.Ring.Unbundled.Rat
import PerfAgent.Gpu.SerializationEviction

/-!
# The counting sink

Admission control and loss accounting in front of a sink (`gpu/sink.go`): one token
bucket per event class, reserved before the delegate is called and returned when it
refuses.  Token levels are rational numbers where the source has floating point; times
are nanoseconds of the sink's clock, read once per call.

The last section puts the sink in front of the window store of the timeline.  A refusal
is counted by the sink and returned to the caller; nothing tells the store, whose only
sign of a hole is the `Lost` count that its records carry.  `Guarded.degrades_iff` says
what that means for one state, and `refusal_degrades` for a run.
-/

universe u

namespace PerfAgent.Gpu

structure EventKindStats where
  accepted : Nat := 0
  droppedFull : Nat := 0
  droppedInvalid : Nat := 0
  droppedDownstream : Nat := 0
deriving DecidableEq

inductive EventKind where
  | launch
  | exec
  | pcSample
  | module
  | event
  | samplingWindow
deriving DecidableEq

structure SinkStats where
  launches : EventKindStats := {}
  execs : EventKindStats := {}
  pcSamples : EventKindStats := {}
  modules : EventKindStats := {}
  events : EventKindStats := {}
  samplingWindows : EventKindStats := {}
deriving DecidableEq

def SinkStats.record (s : SinkStats) (kind : EventKind) (f : EventKindStats → EventKindStats) : SinkStats :=
  match kind with
  | .launch => { s with launches := f s.launches }
  | .exec => { s with execs := f s.execs }
  | .pcSample => { s with pcSamples := f s.pcSamples }
  | .module => { s with modules := f s.modules }
  | .samplingWindow => { s with samplingWindows := f s.samplingWindows }
  | .event => { s with events := f s.events }

/-- Which budget an event draws on: anchors are what later joins depend on. -/
inductive EventClass where
  | anchor
  | data
deriving DecidableEq

structure TokenBucket where
  unbounded : Bool := false
  burst : ℚ := 0
  tokens : ℚ := 0

structure CountingSink where
  anchor : TokenBucket
  data : TokenBucket
  refillRate : ℚ
  lastRefill : Int
  stats : SinkStats := {}

variable (capacity : Int)

def newCountingSinkWithRate (refillPerSecond : ℚ) (now : Int) : CountingSink :=
  let bucket : TokenBucket :=
    if capacity ≤ 0 then { unbounded := true } else { burst := capacity, tokens := capacity }
  { anchor := bucket, data := bucket, refillRate := refillPerSecond, lastRefill := now }

def newCountingSink (now : Int) : CountingSink :=
  newCountingSinkWithRate capacity capacity now

namespace CountingSink

def TokenBucket.fill (b : TokenBucket) (add : ℚ) : TokenBucket :=
  if b.unbounded then b
  else { b with tokens := if b.tokens + add > b.burst then b.burst else b.tokens + add }

def bucketFor (s : CountingSink) : EventClass → TokenBucket
  | .anchor => s.anchor
  | .data => s.data

def setBucket (s : CountingSink) (b : TokenBucket) : EventClass → CountingSink
  | .anchor => { s with anchor := b }
  | .data => { s with data := b }

/-- Add the tokens for the time since the last refill to both buckets. -/
def refill (s : CountingSink) (now : Int) : CountingSink :=
  if now - s.lastRefill ≤ 0 then s
  else
    let add := ((now - s.lastRefill : Int) : ℚ) / 1000000000 * s.refillRate
    { s with
      lastRefill := now
      anchor := TokenBucket.fill s.anchor add
      data := TokenBucket.fill s.data add }

/-- Reserve one token of the class's bucket, or count the event as dropped. -/
def admitCapacity (s : CountingSink) (now : Int) (kind : EventKind) (cls : EventClass) : CountingSink × Bool :=
  if (s.bucketFor cls).unbounded then (s, true)
  else
    let s := s.refill now
    let b := s.bucketFor cls
    if b.tokens < 1 then
      ({ s with stats := s.stats.record kind fun k => { k with droppedFull := k.droppedFull + 1 } }, false)
    else (s.setBucket { b with tokens := b.tokens - 1 } cls, true)

def release (s : CountingSink) (cls : EventClass) : CountingSink :=
  s.setBucket (TokenBucket.fill (s.bucketFor cls) 1) cls

/-- `ValidateSupportedClockDomain`: the unset domain counts as CPU-monotonic. -/
def supportedClockDomain : ClockDomain → Bool
  | .invalid => true
  | .cpuMonotonic => true
  | .synced => false
  | .gpuDevice => false
  | .other _ => false

def admitEvent (s : CountingSink) (now : Int) (kind : EventKind) (cls : EventClass)
    (domain : ClockDomain) : CountingSink × Bool :=
  if supportedClockDomain domain then s.admitCapacity now kind cls
  else
    ({ s with stats := s.stats.record kind fun k =>
      { k with droppedInvalid := k.droppedInvalid + 1 } }, false)

variable {Inner : Type u}

/-- Reserve, delegate, settle: what every method does with its own kind, class and
admission rule.  The delegate answers whether it took the event. -/
def emit (kind : EventKind) (cls : EventClass) (admission : CountingSink → CountingSink × Bool)
    (delegate : Inner → Inner × Bool) (s : CountingSink × Inner) : (CountingSink × Inner) × Bool :=
  match admission s.1 with
  | (sink, false) => ((sink, s.2), false)
  | (sink, true) =>
    match delegate s.2 with
    | (inner, false) =>
      let sink := sink.release cls
      (({ sink with stats := sink.stats.record kind fun k =>
        { k with droppedDownstream := k.droppedDownstream + 1 } }, inner), false)
    | (inner, true) =>
      (({ sink with stats := sink.stats.record kind fun k =>
        { k with accepted := k.accepted + 1 } }, inner), true)

section Methods

variable (now : Int) (s : CountingSink × Inner)

def emitLaunch (inner : Inner → GPUKernelLaunch → Inner × Bool) (l : GPUKernelLaunch) :=
  emit .launch .anchor (fun s => s.admitEvent now .launch .anchor l.clockDomain) (inner · l) s

def emitExec (inner : Inner → GPUKernelExec → Inner × Bool) (e : GPUKernelExec) :=
  emit .exec .data (fun s => s.admitEvent now .exec .data e.clockDomain) (inner · e) s

def emitPCSample (inner : Inner → GPUPCSample → Inner × Bool) (p : GPUPCSample) :=
  emit .pcSample .data (fun s => s.admitEvent now .pcSample .data p.clockDomain) (inner · p) s

def emitModule (inner : Inner → GPUModule → Inner × Bool) (m : GPUModule) :=
  emit .module .anchor (fun s => s.admitCapacity now .module .anchor) (inner · m) s

def emitEvent (inner : Inner → GPUTimelineEvent → Inner × Bool) (e : GPUTimelineEvent) :=
  emit .event .data (fun s => s.admitEvent now .event .data e.clockDomain) (inner · e) s

/-- A window draws on the anchor budget and skips the clock-domain check. -/
def emitSamplingWindow (inner : Inner → GPUSamplingWindow → Inner × Bool) (w : GPUSamplingWindow) :=
  emit .samplingWindow .anchor (fun s => s.admitCapacity now .samplingWindow .anchor) (inner · w) s

end Methods

theorem emit_inner (kind : EventKind) (cls : EventClass)
    (admission : CountingSink → CountingSink × Bool) (delegate : Inner → Inner × Bool)
    (s : CountingSink × Inner) : (emit kind cls admission delegate s).1.2 =
      if (admission s.1).2 then (delegate s.2).1 else s.2 := by
  unfold emit
  rcases admission s.1 with ⟨sink, _ | _⟩
  · rfl
  · rcases delegate s.2 with ⟨inner, _ | _⟩ <;> rfl

theorem emit_accepted (kind : EventKind) (cls : EventClass)
    (admission : CountingSink → CountingSink × Bool) (delegate : Inner → Inner × Bool)
    (s : CountingSink × Inner) : (emit kind cls admission delegate s).2 = ((admission s.1).2 && (delegate s.2).2) := by
  unfold emit
  rcases admission s.1 with ⟨sink, _ | _⟩
  · rfl
  · rcases delegate s.2 with ⟨inner, _ | _⟩ <;> rfl

end CountingSink

/-! ## In front of the window store -/

abbrev Offer := Int × GPUSamplingWindow

/-- The sink and the store behind it, with two records of what happened: the windows
refused, and the processes with a serialized window refused since the store last took
one of theirs. -/
structure Guarded where
  sink : CountingSink
  store : WindowStore
  refused : List GPUSamplingWindow := []
  unreported : List Nat := []

/-- The record changes the history of its process: it is not inverted, and the process
is not refused. -/
def WindowStore.takes (s : WindowStore) (w : GPUSamplingWindow) : Bool :=
  !(w.endNs ≠ 0 && w.endNs < w.startNs) && (s.setFor w.pid).isSome

def Guarded.offer (g : Guarded) (o : Offer) : Guarded :=
  let ((sink, store), accepted) :=
    CountingSink.emitSamplingWindow o.1 (g.sink, g.store) WindowStore.emitSamplingWindow o.2
  { sink := sink
    store := store
    refused := if accepted then g.refused else g.refused ++ [o.2]
    unreported :=
      if accepted then
        if g.store.takes o.2 then g.unreported.filter (· ≠ o.2.pid) else g.unreported
      else if o.2.mode = .kernelSerialized then o.2.pid :: g.unreported
      else g.unreported }

def Guarded.offers (g : Guarded) (os : List Offer) : Guarded := os.foldl Guarded.offer g

namespace SamplingWindow

def Holds (w : SamplingWindow) (t : Nat) : Prop :=
  w.startNs ≤ t ∧ (w.isOpen = true ∨ t ≤ w.endNs)

theorem intersects_self {w : SamplingWindow} {t : Nat} : w.intersects t t = true ↔ w.Holds t :=
  intersects_iff

end SamplingWindow

namespace WindowSet

theorem notSerialized_at {set : WindowSet} {s e t : Nat}
    (h : set.classify s e = .notSerialized) (hs : s ≤ t) (he : t ≤ e) :
    set.classify t t = .notSerialized := by
  obtain ⟨-, hhave, hall, hstart, c, hc, hle⟩ := classify_eq_notSerialized.mp h
  refine classify_eq_notSerialized.mpr ⟨Nat.le_refl t, hhave, fun w hw hi => ?_, hstart.trans hs, c, hc, he.trans hle⟩
  exact hall w hw (SamplingWindow.intersects_mono hs he hi)

/-- The instant is inside the coverage, and no window held there speaks against
reading it as undisturbed. -/
def VouchesFor (set : WindowSet) (t : Nat) : Prop :=
  set.coverageStartNs ≤ t ∧ (∃ c ∈ set.coverageEndNs, t ≤ c) ∧
    ∀ w ∈ set.wins, w.Holds t → w.isOpen = false ∧ w.mode ≠ .unset ∧ w.mode ≠ .kernelSerialized

theorem classify_instant {set : WindowSet} {t : Nat} :
    set.classify t t = .notSerialized ↔ set.VouchesFor t := by
  rw [classify_eq_notSerialized]
  have hwin : ∀ w : SamplingWindow, (w.proves = false ∧ w.ambiguous = false) ↔
      (w.isOpen = false ∧ w.mode ≠ .unset ∧ w.mode ≠ .kernelSerialized) := fun w => by
    simp only [SamplingWindow.proves, SamplingWindow.ambiguous, SamplingWindow.serializes]
    cases w.isOpen <;> cases w.mode <;> simp
  constructor
  · rintro ⟨-, -, hall, hstart, c, hc, hle⟩
    refine ⟨hstart, ⟨c, hc, hle⟩, fun w hw ht => ?_⟩
    exact (hwin w).mp (hall w hw (SamplingWindow.intersects_self.mpr ht))
  · rintro ⟨hstart, ⟨c, hc, hle⟩, hall⟩
    refine ⟨Nat.le_refl t, ?_, fun w hw hi => ?_, hstart, c, hc, hle⟩
    · cases hh : set.haveCoverage with
      | true => rfl
      | false =>
        rw [Option.mem_def, coverageEndNs, if_pos (.inl hh)] at hc
        cases hc
    · exact (hwin w).mpr (hall w hw (SamplingWindow.intersects_self.mp hi))

end WindowSet

/-- The refused serialized windows of a process are never answered for: no interval
that shares an instant with one reads "not serialized". -/
def Guarded.Degrades (g : Guarded) : Prop :=
  ∀ r ∈ g.refused, r.mode = .kernelSerialized → ∀ s e t, s ≤ t → t ≤ e →
    (WindowSet.ofRecord r).Holds t → g.store.classify r.pid s e ≠ .notSerialized

variable {g : Guarded}

/-- Of one state: refusals degrade the verdict exactly when the store vouches for no
instant of a refused serialized window. -/
theorem Guarded.degrades_iff : g.Degrades ↔ ∀ r ∈ g.refused, r.mode = .kernelSerialized →
      ∀ set ∈ g.store.byPID.find? r.pid, ∀ t, (WindowSet.ofRecord r).Holds t → ¬set.VouchesFor t := by
  have hclass : ∀ {pid s e : Nat}, g.store.classify pid s e = .notSerialized ↔
      ∃ set ∈ g.store.byPID.find? pid, set.classify s e = .notSerialized := by
    intro pid s e
    unfold WindowStore.classify
    cases g.store.byPID.find? pid with
    | none => simp
    | some set =>
      split_ifs with hlt
      · simp [WindowSet.classify, hlt]
      · simp
  constructor
  · intro hdeg r hr hser set hset t ht hv
    refine hdeg r hr hser t t t (Nat.le_refl t) (Nat.le_refl t) ht ?_
    exact hclass.mpr ⟨set, hset, WindowSet.classify_instant.mpr hv⟩
  · intro hcond r hr hser s e t hs he ht hns
    obtain ⟨set, hset, hns⟩ := hclass.mp hns
    refine hcond r hr hser set hset t ht (WindowSet.classify_instant.mp ?_)
    exact WindowSet.notSerialized_at hns hs he

/-! ## Runs in which every refusal is reported -/

def WindowStore.restarts (s : WindowStore) (w : GPUSamplingWindow) : Bool :=
  w.lost > 0 || (s.setFor w.pid).any fun set => !set.haveCoverage

/-- The window starts after everything the store covers of its process. -/
def WindowStore.PastCoverage (s : WindowStore) (w : GPUSamplingWindow) : Prop :=
  ∀ set ∈ s.byPID.find? w.pid, ∀ c ∈ set.coverageEndNs, c < w.startNs

instance (s : WindowStore) (w : GPUSamplingWindow) : Decidable (s.PastCoverage w) :=
  inferInstanceAs (Decidable (∀ set ∈ s.byPID.find? w.pid, ∀ c ∈ set.coverageEndNs, c < w.startNs))

/-- The window starts after the end of every refused serialized window of its process. -/
def Guarded.AfterRefused (g : Guarded) (w : GPUSamplingWindow) : Prop :=
  ∀ r ∈ g.refused, r.mode = .kernelSerialized → r.pid = w.pid → r.endNs ≠ 0 ∧ r.endNs < w.startNs

instance (g : Guarded) (w : GPUSamplingWindow) : Decidable (g.AfterRefused w) :=
  inferInstanceAs (Decidable (∀ r ∈ g.refused, _))

/-- A serialized window is refused only past what the store covers; the record taken
after a refusal restarts the coverage; and a restart never goes back before the end of a
refused serialized window. -/
def Guarded.Reports (g : Guarded) (o : Offer) : Prop :=
  ((g.sink.admitCapacity o.1 .samplingWindow .anchor).2 = true → g.store.takes o.2 = true →
    (o.2.pid ∈ g.unreported → g.store.restarts o.2 = true) ∧
    (g.store.restarts o.2 = true → g.AfterRefused o.2)) ∧
  ((g.sink.admitCapacity o.1 .samplingWindow .anchor).2 = false →
    o.2.mode = .kernelSerialized → g.store.PastCoverage o.2)

instance (g : Guarded) (o : Offer) : Decidable (g.Reports o) :=
  inferInstanceAs (Decidable (_ ∧ _))

/-- Every refused serialized window lies before the coverage of its process, or it has
not been followed by a record and lies past the coverage. -/
def Guarded.Outside (g : Guarded) : Prop :=
  ∀ r ∈ g.refused, r.mode = .kernelSerialized → ∀ set ∈ g.store.byPID.find? r.pid,
    (r.endNs ≠ 0 ∧ r.endNs < set.coverageStartNs) ∨ (r.pid ∈ g.unreported ∧ ∀ c ∈ set.coverageEndNs, c < r.startNs)

theorem Guarded.Outside.degrades (h : g.Outside) : g.Degrades := by
  refine degrades_iff.mpr fun r hr hser set hset t ht hv => ?_
  obtain ⟨hstart, ⟨c, hc, hle⟩, -⟩ := hv
  rcases h r hr hser set hset with ⟨hne, hlt⟩ | ⟨-, hpast⟩
  · have hend : t ≤ r.endNs := ht.2.resolve_left (by
      simp [SamplingWindow.isOpen, WindowSet.ofRecord, hne])
    omega
  · have h1 := hpast c hc
    have h2 : r.startNs ≤ t := ht.1
    omega

theorem WindowSet.restart_le_add (maxPerPID : Nat) (set : WindowSet) (w : GPUSamplingWindow) :
    (set.restart w).coverageStartNs ≤ (set.add maxPerPID w).1.coverageStartNs := by
  cases hs : supersede (ofRecord w) set.wins with
  | some wins => rw [add_of_supersede hs]
  | none =>
    rw [add_of_append hs, evict]
    split
    · simp only
      split
      · exact Nat.le_refl _
      · split <;> omega
    · exact Nat.le_refl _

theorem offer_of_refused {o : Offer} (h : (g.sink.admitCapacity o.1 .samplingWindow .anchor).2 = false) :
    (g.offer o).store = g.store ∧ (g.offer o).refused = g.refused ++ [o.2] ∧ (g.offer o).unreported =
        if o.2.mode = .kernelSerialized then o.2.pid :: g.unreported else g.unreported := by
  have hi := CountingSink.emit_inner .samplingWindow .anchor (fun s => s.admitCapacity o.1 .samplingWindow .anchor)
    (fun s : WindowStore => s.emitSamplingWindow o.2) (g.sink, g.store)
  have ha := CountingSink.emit_accepted .samplingWindow .anchor (fun s => s.admitCapacity o.1 .samplingWindow .anchor)
    (fun s : WindowStore => s.emitSamplingWindow o.2) (g.sink, g.store)
  simp only [h, if_false, Bool.false_and, Bool.false_eq_true] at hi ha
  unfold Guarded.offer CountingSink.emitSamplingWindow
  simp only [hi, ha, if_false, Bool.false_eq_true]
  exact ⟨trivial, trivial, trivial⟩

theorem offer_of_admitted {o : Offer} (h : (g.sink.admitCapacity o.1 .samplingWindow .anchor).2 = true) :
    (g.offer o).store = g.store.add o.2 ∧ (g.offer o).refused = g.refused ∧ (g.offer o).unreported =
        if g.store.takes o.2 then g.unreported.filter (· ≠ o.2.pid) else g.unreported := by
  have hi := CountingSink.emit_inner .samplingWindow .anchor (fun s => s.admitCapacity o.1 .samplingWindow .anchor)
    (fun s : WindowStore => s.emitSamplingWindow o.2) (g.sink, g.store)
  have ha := CountingSink.emit_accepted .samplingWindow .anchor (fun s => s.admitCapacity o.1 .samplingWindow .anchor)
    (fun s : WindowStore => s.emitSamplingWindow o.2) (g.sink, g.store)
  simp only [h, if_true, Bool.true_and] at hi ha
  unfold Guarded.offer CountingSink.emitSamplingWindow
  simp only [hi, ha]
  exact ⟨rfl, rfl, rfl⟩

theorem Guarded.Outside.offer {g : Guarded} (h : g.Outside) {o : Offer} (hrep : g.Reports o) : (g.offer o).Outside := by
  cases hadm : (g.sink.admitCapacity o.1 .samplingWindow .anchor).2 with
  | false =>
    have hrep := hrep.2 hadm
    obtain ⟨hstore, hrefused, hunrep⟩ := offer_of_refused hadm
    intro r hr hser set hset
    rw [hstore] at hset
    rw [hrefused] at hr
    rw [hunrep]
    rcases List.mem_append.mp hr with hr | hr
    · refine (h r hr hser set hset).imp_right fun hp => ⟨?_, hp.2⟩
      split_ifs
      · exact List.mem_cons_of_mem _ hp.1
      · exact hp.1
    · rw [List.mem_singleton] at hr
      subst hr
      rw [if_pos hser]
      exact .inr ⟨List.mem_cons_self, hrep hser set hset⟩
  | true =>
    have hrep := hrep.1 hadm
    obtain ⟨hstore, hrefused, hunrep⟩ := offer_of_admitted hadm
    intro r hr hser set hset
    rw [hstore] at hset
    rw [hrefused] at hr
    rw [hunrep]
    by_cases htakes : g.store.takes o.2 = true
    · obtain ⟨hgap, hback⟩ := hrep htakes
      rw [if_pos htakes]
      simp only [WindowStore.takes, Bool.and_eq_true, Bool.not_eq_true', Bool.and_eq_false_imp,
        decide_eq_true_eq, decide_eq_false_iff_not] at htakes
      obtain ⟨old, hold⟩ := Option.isSome_iff_exists.mp htakes.2
      have hinv : ¬(o.2.endNs ≠ 0 ∧ o.2.endNs < o.2.startNs) := fun hc =>
        htakes.1 hc.1 hc.2
      obtain ⟨hby, -, -⟩ := WindowStore.add_of_setFor hinv hold
      rw [hby, AssocMap.find?_put] at hset
      split_ifs at hset with hpid
      · -- the process of the record: its coverage starts where it restarts, or later
        obtain rfl := Option.some.inj hset
        have hle := WindowSet.restart_le_add g.store.maxPerPID old o.2
        by_cases hres : g.store.restarts o.2 = true
        · have hb := hback hres r hr hser hpid
          have hcov : (old.restart o.2).coverageStartNs = o.2.startNs := by
            unfold WindowSet.restart
            rw [if_pos]
            simpa [WindowStore.restarts, hold] using hres
          exact .inl ⟨hb.1, by omega⟩
        · have hnot : ¬(o.2.lost > 0 ∨ old.haveCoverage = false) := by
            simpa [WindowStore.restarts, hold] using hres
          have hcov : old.restart o.2 = old := if_neg hnot
          rw [hcov] at hle
          have hfind : g.store.byPID.find? r.pid = some old := by
            rw [hpid]
            cases hf : g.store.byPID.find? o.2.pid with
            | some x => rw [WindowStore.setFor, hf] at hold; exact hold
            | none =>
              -- a history that is new has no coverage, and this one has
              rw [WindowStore.setFor, hf] at hold
              split_ifs at hold
              · cases hold
                simp at hnot
          rcases h r hr hser old hfind with ⟨hne, hlt⟩ | ⟨hp, -⟩
          · exact .inl ⟨hne, by omega⟩
          · exact absurd (hgap (hpid ▸ hp)) hres
      · refine (h r hr hser set hset).imp_right fun hp => ⟨?_, hp.2⟩
        exact List.mem_filter.mpr ⟨hp.1, by simpa using hpid⟩
    · rw [if_neg htakes]
      have hby : (g.store.add o.2).byPID = g.store.byPID := by
        refine (WindowStore.add_of_refused ?_).1
        simp only [WindowStore.takes, Bool.and_eq_true, Bool.not_eq_true', not_and,
          Bool.not_eq_true, Option.isSome_eq_false_iff, Option.isNone_iff_eq_none] at htakes
        by_cases hinv : o.2.endNs ≠ 0 ∧ o.2.endNs < o.2.startNs
        · exact .inl hinv
        · refine .inr (htakes ?_)
          simpa using hinv
      rw [hby] at hset
      exact h r hr hser set hset

/-- In every run whose refusals are reported, no interval that shares an instant with a
refused serialized window reads "not serialized", in any state reached. -/
theorem refusal_degrades (sink : CountingSink) (maxPerPID maxPIDs : Int) (os : List Offer)
    (hrep : Along Guarded.offer Guarded.Reports { sink := sink, store := newWindowStore maxPerPID maxPIDs } os) :
    (Guarded.offers { sink := sink, store := newWindowStore maxPerPID maxPIDs } os).Degrades := by
  refine Guarded.Outside.degrades ?_
  refine Along.invariant (I := fun _ g => g.Outside) (fun r hr => ?_) ?_ hrep
  · simp at hr
  · exact fun _ g o h hrep => h.offer hrep

def burstWindow (startNs endNs lost : Nat) : GPUSamplingWindow :=
  { pid := 1, startNs := startNs, endNs := endNs, mode := .kernelSerialized, lost := lost }

/-- Three windows through a sink that holds one token and refills one a second: the
second is refused, and the third says whether anything was lost before it. -/
def threeOffers (lost : Nat) : List Offer :=
  [(0, burstWindow 10 20 0), (0, burstWindow 30 40 0), (1000000000, burstWindow 50 60 lost)]

theorem refusal_degrades_reported : Along Guarded.offer Guarded.Reports
      { sink := newCountingSink 1 0, store := newWindowStore 8 1 } (threeOffers 1) ∧
    (Guarded.offers { sink := newCountingSink 1 0, store := newWindowStore 8 1 }
      (threeOffers 1)).refused = [burstWindow 30 40 0] ∧
    (Guarded.offers { sink := newCountingSink 1 0, store := newWindowStore 8 1 } (threeOffers 1)).Degrades :=
  ⟨by decide +kernel, by decide +kernel, refusal_degrades _ 8 1 _ (by decide +kernel)⟩

/-- Nothing reports the refusal, and an execution inside the refused window reads as
undisturbed. -/
theorem refusal_falsifies : ¬ ∀ (sink : CountingSink) (maxPerPID maxPIDs : Int) (os : List Offer),
      (Guarded.offers { sink := sink, store := newWindowStore maxPerPID maxPIDs } os).Degrades := by
  intro h
  refine h (newCountingSink 1 0) 8 1 (threeOffers 0) (burstWindow 30 40 0) (by decide +kernel) rfl
    32 35 33 (by decide) (by decide) ⟨by decide, by decide⟩ (by decide +kernel)

end PerfAgent.Gpu
