import Mathlib.Tactic.Linarith
import Mathlib.Tactic.Ring
import PerfAgent.Gpu.Sink

/-!
# Admission under concurrent calls

Every method of the counting sink is two critical sections with the delegate's call between
them: one reserves a token or counts a refusal, the other settles.  Here the sections of any
number of calls interleave.

Both buckets refill from one reading of the clock, so a call of the data class moves the
anchor bucket, too.  That it does not matter is `fill_fill`: the level after two refills is
the level after one over the whole time.  A sink that has taken only the anchor calls lags
behind, and catches up with the next of them.
-/

universe u

namespace PerfAgent.Gpu

open List Function

def EventKind.cls : EventKind → EventClass
  | .launch => .anchor
  | .exec => .data
  | .pcSample => .data
  | .module => .anchor
  | .event => .data
  | .samplingWindow => .anchor

/-- What admission reads of a call; modules and windows have no clock domain. -/
structure EmitCall where
  kind : EventKind
  domain : ClockDomain := .invalid
deriving DecidableEq

/-- The record's clock domain is one the sink takes, or its method does not look. -/
def EmitCall.wellTimed (c : EmitCall) : Bool :=
  match c.kind with
  | .module => true
  | .samplingWindow => true
  | _ => CountingSink.supportedClockDomain c.domain

def SinkStats.statsFor (s : SinkStats) : EventKind → EventKindStats
  | .launch => s.launches
  | .exec => s.execs
  | .pcSample => s.pcSamples
  | .module => s.modules
  | .samplingWindow => s.samplingWindows
  | .event => s.events

def EventKindStats.total (k : EventKindStats) : Nat :=
  k.accepted + k.droppedFull + k.droppedInvalid + k.droppedDownstream

namespace CountingSink

def reserve (s : CountingSink) (now : Int) (c : EmitCall) : CountingSink × Bool :=
  match c.kind with
  | .launch => s.admitEvent now .launch .anchor c.domain
  | .exec => s.admitEvent now .exec .data c.domain
  | .pcSample => s.admitEvent now .pcSample .data c.domain
  | .module => s.admitCapacity now .module .anchor
  | .event => s.admitEvent now .event .data c.domain
  | .samplingWindow => s.admitCapacity now .samplingWindow .anchor

def settle (s : CountingSink) (kind : EventKind) (accepted : Bool) : CountingSink :=
  if accepted then
    { s with stats := s.stats.record kind fun k => { k with accepted := k.accepted + 1 } }
  else
    let s := s.release kind.cls
    { s with stats := s.stats.record kind fun k =>
      { k with droppedDownstream := k.droppedDownstream + 1 } }

end CountingSink

/-- The sink under concurrent calls, with its clock, the number of calls of each kind that
wait for the delegate, and the answers of admission, newest first. -/
structure Admissions where
  sink : CountingSink
  clock : Int
  inFlight : EventKind → Nat := fun _ => 0
  answers : List (EmitCall × Bool) := []

namespace Admissions

inductive Action where
  | /-- A call reads the clock and asks for admission. -/ enter (c : EmitCall) (now : Int)
  | /-- The delegate has answered a call of that kind. -/ settle (kind : EventKind) (accepted : Bool)
  | /-- `EmitGraphExecutions` goes straight to the delegate. -/ graphExecutions
deriving DecidableEq

def new (capacity : Int) (refillPerSecond : ℚ) (start : Int) : Admissions where
  sink := newCountingSinkWithRate capacity refillPerSecond start
  clock := start

def step (s : Admissions) : Action → Option Admissions
  | .enter c now =>
    if s.clock ≤ now then
      let r := s.sink.reserve now c
      some {
        sink := r.1
        clock := now
        inFlight := if r.2 then update s.inFlight c.kind (s.inFlight c.kind + 1)
          else s.inFlight
        answers := (c, r.2) :: s.answers }
    else none
  | .settle kind accepted =>
    if s.inFlight kind = 0 then none
    else
      some { s with
        sink := s.sink.settle kind accepted
        inFlight := update s.inFlight kind (s.inFlight kind - 1) }
  | .graphExecutions => some s

end Admissions

/-! ## The buckets -/

variable {capacity : Int} (rate : ℚ)

def TokenBucket.InRange (b : TokenBucket) : Prop := 0 ≤ b.tokens ∧ b.tokens ≤ b.burst

namespace CountingSink

variable {s : CountingSink} {b : TokenBucket} {now : Int} {c : EmitCall}

theorem inRange_fill (h : b.InRange) {add : ℚ} (hadd : b.unbounded = false → 0 ≤ add) :
    (TokenBucket.fill b add).InRange := by
  unfold TokenBucket.fill
  split
  · exact h
  next hb =>
  obtain ⟨hpos, hle⟩ := h
  have hadd := hadd (by simpa using hb)
  simp only [TokenBucket.InRange]
  split
  · exact ⟨hpos.trans hle, le_rfl⟩
  · next hroom => exact ⟨add_nonneg hpos hadd, not_lt.mp hroom⟩

theorem fill_zero (h : b.InRange) : TokenBucket.fill b 0 = b := by
  unfold TokenBucket.fill
  split
  · rfl
  · rw [add_zero, if_neg (not_lt.mpr h.2)]

theorem fill_fill (b : TokenBucket) (add : ℚ) {add' : ℚ} (h : 0 ≤ add') :
    TokenBucket.fill (TokenBucket.fill b add) add' = TokenBucket.fill b (add + add') := by
  unfold TokenBucket.fill
  split
  · rfl
  congr 1
  -- a level that was cut at the burst stays there
  by_cases hcut : b.tokens + add > b.burst
  · have hsum : b.tokens + (add + add') > b.burst := by linarith
    simp only [if_pos hcut, if_pos hsum]
    split
    · rfl
    · next hle => linarith
  · simp only [if_neg hcut, add_assoc]

def worth (elapsed : Int) : ℚ := (elapsed : ℚ) / 1000000000 * rate

theorem worth_nonneg {rate : ℚ} {elapsed : Int} (hr : 0 ≤ rate) (he : 0 ≤ elapsed) : 0 ≤ worth rate elapsed := by
  have he' : (0 : ℚ) ≤ elapsed := by exact_mod_cast he
  exact mul_nonneg (div_nonneg he' (by norm_num)) hr

theorem worth_add (x y : Int) : worth rate x + worth rate y = worth rate (x + y) := by
  unfold worth
  push_cast
  ring

/-- The levels are within the burst, and a bucket that is bounded refills. -/
structure Valid (s : CountingSink) : Prop where
  anchor : s.anchor.InRange
  data : s.data.InRange
  rate : s.anchor.unbounded = false ∨ s.data.unbounded = false → 0 ≤ s.refillRate

theorem valid_new {refillPerSecond : ℚ} (start : Int) (hrate : 0 < capacity → 0 ≤ refillPerSecond) :
    (newCountingSinkWithRate capacity refillPerSecond start).Valid := by
  unfold newCountingSinkWithRate
  split
  · exact ⟨⟨le_rfl, le_rfl⟩, ⟨le_rfl, le_rfl⟩, by simp⟩
  · next hc =>
    have hcap : (0 : ℚ) ≤ capacity := by exact_mod_cast (not_le.mp hc).le
    exact ⟨⟨hcap, le_rfl⟩, ⟨hcap, le_rfl⟩, fun _ => hrate (not_le.mp hc)⟩

theorem refill_eq (h : s.Valid) (hnow : s.lastRefill ≤ now) :
    s.refill now = { s with
      lastRefill := now
      anchor := TokenBucket.fill s.anchor (worth s.refillRate (now - s.lastRefill))
      data := TokenBucket.fill s.data (worth s.refillRate (now - s.lastRefill)) } := by
  unfold refill
  split
  · next hle =>
    obtain rfl : s.lastRefill = now := by omega
    have hzero : worth s.refillRate (s.lastRefill - s.lastRefill) = 0 := by simp [worth]
    rw [hzero, fill_zero h.anchor, fill_zero h.data]
  · rfl

theorem unbounded_fill (b : TokenBucket) (add : ℚ) : (TokenBucket.fill b add).unbounded = b.unbounded := by
  unfold TokenBucket.fill
  split <;> rfl

theorem Valid.refill (h : s.Valid) (hnow : s.lastRefill ≤ now) : (s.refill now).Valid := by
  rw [refill_eq h hnow]
  refine ⟨inRange_fill h.anchor fun hb => ?_, inRange_fill h.data fun hb => ?_, fun hb => ?_⟩
  · exact worth_nonneg (h.rate (.inl hb)) (by omega)
  · exact worth_nonneg (h.rate (.inr hb)) (by omega)
  · exact h.rate (by simpa only [unbounded_fill] using hb)

theorem reserve_eq (s : CountingSink) (now : Int) (c : EmitCall) : s.reserve now c =
      if c.wellTimed then s.admitCapacity now c.kind c.kind.cls
      else
        ({ s with stats := s.stats.record c.kind fun k =>
          { k with droppedInvalid := k.droppedInvalid + 1 } }, false) := by
  rcases c with ⟨kind, domain⟩
  cases kind <;> rfl

/-- What the first critical section answers, and what it does to the sink. -/
inductive Reserved (s : CountingSink) (now : Int) (c : EmitCall) : CountingSink × Bool → Prop
  | invalid (hc : c.wellTimed = false) :
      Reserved s now c ({ s with stats := s.stats.record c.kind fun k =>
        { k with droppedInvalid := k.droppedInvalid + 1 } }, false)
  | unbounded (hc : c.wellTimed = true) (hb : (s.bucketFor c.kind.cls).unbounded = true) :
      Reserved s now c (s, true)
  | full (hc : c.wellTimed = true) (hb : (s.bucketFor c.kind.cls).unbounded = false)
      (hlt : ((s.refill now).bucketFor c.kind.cls).tokens < 1) :
      Reserved s now c
        ({ s.refill now with stats := (s.refill now).stats.record c.kind fun k =>
          { k with droppedFull := k.droppedFull + 1 } }, false)
  | room (hc : c.wellTimed = true) (hb : (s.bucketFor c.kind.cls).unbounded = false)
      (hge : 1 ≤ ((s.refill now).bucketFor c.kind.cls).tokens) :
      Reserved s now c ((s.refill now).setBucket
          { (s.refill now).bucketFor c.kind.cls with
            tokens := ((s.refill now).bucketFor c.kind.cls).tokens - 1 } c.kind.cls, true)

theorem reserved_reserve (s : CountingSink) (now : Int) (c : EmitCall) : Reserved s now c (s.reserve now c) := by
  rw [reserve_eq]
  split
  next hc =>
    unfold admitCapacity
    split
    · next hb => exact .unbounded hc hb
    next hb =>
    have hb : (s.bucketFor c.kind.cls).unbounded = false := by simpa using hb
    simp only
    split
    · next hlt => exact .full hc hb hlt
    · next hge => exact .room hc hb (not_lt.mp hge)
  next hc => exact .invalid (by simpa using hc)

theorem Reserved.eq {r : CountingSink × Bool} (h : Reserved s now c r) : s.reserve now c = r := by
  rw [reserve_eq]
  cases h with
  | invalid hc => exact if_neg (by simp [hc])
  | unbounded hc hb =>
    rw [if_pos hc, admitCapacity, if_pos hb]
  | full hc hb hlt =>
    rw [if_pos hc, admitCapacity, if_neg (by simp [hb])]
    exact if_pos hlt
  | room hc hb hge =>
    rw [if_pos hc, admitCapacity, if_neg (by simp [hb])]
    exact if_neg (not_lt.mpr hge)

theorem Valid.setBucket (h : s.Valid) {cls : EventClass} (hr : b.InRange)
    (hb : b.unbounded = (s.bucketFor cls).unbounded) : (s.setBucket b cls).Valid := by
  cases cls with
  | anchor => exact ⟨hr, h.data, fun hu => h.rate (hu.imp_left hb.symm.trans)⟩
  | data => exact ⟨h.anchor, hr, fun hu => h.rate (hu.imp_right hb.symm.trans)⟩

theorem Valid.bucketFor (h : s.Valid) (cls : EventClass) : (s.bucketFor cls).InRange := by
  cases cls with
  | anchor => exact h.anchor
  | data => exact h.data

theorem Reserved.valid {r : CountingSink × Bool} (hr : Reserved s now c r) (h : s.Valid)
    (hnow : s.lastRefill ≤ now) : r.1.Valid := by
  have hfill := h.refill hnow
  cases hr with
  | invalid hc => exact ⟨h.anchor, h.data, h.rate⟩
  | unbounded hc hb => exact h
  | full hc hb hlt => exact ⟨hfill.anchor, hfill.data, hfill.rate⟩
  | room hc hb hge =>
    obtain ⟨-, hle⟩ := hfill.bucketFor c.kind.cls
    exact hfill.setBucket ⟨sub_nonneg.mpr hge, (sub_le_self _ zero_le_one).trans hle⟩ rfl

theorem Valid.settle (h : s.Valid) (kind : EventKind) (accepted : Bool) : (s.settle kind accepted).Valid := by
  unfold CountingSink.settle
  split
  · exact ⟨h.anchor, h.data, h.rate⟩
  · have hr : (s.release kind.cls).Valid :=
      h.setBucket (inRange_fill (h.bucketFor _) fun _ => zero_le_one) (unbounded_fill _ _)
    exact ⟨hr.anchor, hr.data, hr.rate⟩

/-! ## The books -/

theorem statsFor_record (st : SinkStats) (kind k : EventKind) (f : EventKindStats → EventKindStats) :
    (st.record kind f).statsFor k = if k = kind then f (st.statsFor k) else st.statsFor k := by
  cases kind <;> cases k <;> rfl

theorem total_record {f : EventKindStats → EventKindStats} (hf : ∀ e, (f e).total = e.total + 1)
    (st : SinkStats) (kind k : EventKind) :
    ((st.record kind f).statsFor k).total = (st.statsFor k).total + if k = kind then 1 else 0 := by
  rw [statsFor_record]
  split
  · exact hf _
  · rfl

theorem stats_refill (s : CountingSink) (now : Int) : (s.refill now).stats = s.stats := by
  unfold CountingSink.refill
  split <;> rfl

theorem stats_setBucket (s : CountingSink) (b : TokenBucket) (cls : EventClass) :
    (s.setBucket b cls).stats = s.stats := by
  cases cls <;> rfl

theorem lastRefill_setBucket (s : CountingSink) (b : TokenBucket) (cls : EventClass) :
    (s.setBucket b cls).lastRefill = s.lastRefill := by
  cases cls <;> rfl

theorem lastRefill_settle (s : CountingSink) (kind : EventKind) (accepted : Bool) :
    (s.settle kind accepted).lastRefill = s.lastRefill := by
  unfold CountingSink.settle
  split
  · rfl
  · exact lastRefill_setBucket _ _ _

theorem Reserved.lastRefill_le {r : CountingSink × Bool} (hr : Reserved s now c r)
    (h : s.Valid) (hnow : s.lastRefill ≤ now) : r.1.lastRefill ≤ now := by
  have hfill : (s.refill now).lastRefill = now := by rw [refill_eq h hnow]
  cases hr with
  | invalid hc => exact hnow
  | unbounded hc hb => exact hnow
  | full hc hb hlt => exact hfill.le
  | room hc hb hge => exact (lastRefill_setBucket _ _ _).trans hfill |>.le

theorem Reserved.total {r : CountingSink × Bool} (hr : Reserved s now c r) (k : EventKind) :
    (r.1.stats.statsFor k).total + (if r.2 = true ∧ k = c.kind then 1 else 0) =
      (s.stats.statsFor k).total + if k = c.kind then 1 else 0 := by
  cases hr with
  | invalid hc =>
    rw [if_neg nofun, Nat.add_zero]
    refine total_record (fun e => ?_) _ _ _
    simp only [EventKindStats.total]
    omega
  | unbounded hc hb => simp
  | full hc hb hlt =>
    rw [if_neg nofun, Nat.add_zero, stats_refill]
    refine total_record (fun e => ?_) _ _ _
    simp only [EventKindStats.total]
    omega
  | room hc hb hge => simp [stats_setBucket, stats_refill]

theorem total_settle (s : CountingSink) (kind : EventKind) (accepted : Bool) (k : EventKind) :
    ((s.settle kind accepted).stats.statsFor k).total = (s.stats.statsFor k).total + if k = kind then 1 else 0 := by
  unfold CountingSink.settle
  split
  · refine total_record (fun e => ?_) _ _ _
    simp only [EventKindStats.total]
    omega
  · rw [← stats_setBucket s (TokenBucket.fill (s.bucketFor kind.cls) 1) kind.cls]
    refine total_record (fun e => ?_) _ _ _
    simp only [EventKindStats.total]
    omega

/-! ## A sink that lags behind -/

/-- The anchor buckets are the same, but for what `t` has not refilled yet. -/
structure Lags (s t : CountingSink) : Prop where
  valid : s.Valid
  valid' : t.Valid
  rate : t.refillRate = s.refillRate
  behind : t.lastRefill ≤ s.lastRefill
  anchor : s.anchor = TokenBucket.fill t.anchor (worth s.refillRate (s.lastRefill - t.lastRefill))

variable {t : CountingSink}

theorem lags_of_eq (hs : s.Valid) (ht : t.Valid) (hrate : t.refillRate = s.refillRate)
    (hlast : t.lastRefill = s.lastRefill) (hanchor : t.anchor = s.anchor) : Lags s t := by
  refine ⟨hs, ht, hrate, hlast.le, ?_⟩
  have hzero : worth s.refillRate (s.lastRefill - t.lastRefill) = 0 := by simp [worth, hlast]
  rw [hzero, fill_zero ht.anchor, hanchor]

theorem Lags.unbounded (h : Lags s t) : s.anchor.unbounded = t.anchor.unbounded := by
  rw [h.anchor, unbounded_fill]

theorem Lags.fill_anchor (h : Lags s t) (hnow : s.lastRefill ≤ now) :
    TokenBucket.fill s.anchor (worth s.refillRate (now - s.lastRefill)) =
      TokenBucket.fill t.anchor (worth s.refillRate (now - t.lastRefill)) := by
  cases hb : s.anchor.unbounded with
  | true =>
    have hb' : t.anchor.unbounded = true := h.unbounded ▸ hb
    rw [h.anchor]
    simp only [TokenBucket.fill, hb', if_true]
  | false =>
    have hpos : 0 ≤ worth s.refillRate (now - s.lastRefill) :=
      worth_nonneg (h.valid.rate (.inl hb)) (by omega)
    rw [h.anchor, fill_fill _ _ hpos, worth_add]
    congr 2
    omega

theorem Lags.refill (h : Lags s t) (hnow : s.lastRefill ≤ now) : Lags (s.refill now) t := by
  have hvalid := h.valid.refill hnow
  rw [refill_eq h.valid hnow] at hvalid ⊢
  exact ⟨hvalid, h.valid', h.rate, h.behind.trans hnow, h.fill_anchor hnow⟩

theorem Lags.refill_both (h : Lags s t) (hnow : s.lastRefill ≤ now) :
    Lags (s.refill now) (t.refill now) ∧ (t.refill now).lastRefill = (s.refill now).lastRefill ∧
      (t.refill now).anchor = (s.refill now).anchor := by
  have hnow' : t.lastRefill ≤ now := h.behind.trans hnow
  have hanchor : (t.refill now).anchor = (s.refill now).anchor := by
    rw [refill_eq h.valid hnow, refill_eq h.valid' hnow', h.rate]
    exact (h.fill_anchor hnow).symm
  have hlast : (t.refill now).lastRefill = (s.refill now).lastRefill := by
    rw [refill_eq h.valid hnow, refill_eq h.valid' hnow']
  refine ⟨lags_of_eq (h.valid.refill hnow) (h.valid'.refill hnow') ?_ hlast hanchor, hlast, hanchor⟩
  rw [refill_eq h.valid hnow, refill_eq h.valid' hnow']
  exact h.rate

theorem Lags.record (h : Lags s t) (st : SinkStats) : Lags { s with stats := st } t :=
  ⟨⟨h.valid.anchor, h.valid.data, h.valid.rate⟩, h.valid', h.rate, h.behind, h.anchor⟩

theorem Lags.record_both (h : Lags s t) (st st' : SinkStats) : Lags { s with stats := st } { t with stats := st' } :=
  ⟨⟨h.valid.anchor, h.valid.data, h.valid.rate⟩, ⟨h.valid'.anchor, h.valid'.data, h.valid'.rate⟩,
    h.rate, h.behind, h.anchor⟩

theorem Lags.setBucket_data (h : Lags s t) (hv : (s.setBucket b .data).Valid) : Lags (s.setBucket b .data) t :=
  ⟨hv, h.valid', h.rate, h.behind, h.anchor⟩

theorem Lags.reserve_data {r : CountingSink × Bool} (h : Lags s t) (hnow : s.lastRefill ≤ now)
    (hr : Reserved s now c r) (hc : c.kind.cls = .data) : Lags r.1 t := by
  have hvalid := hr.valid h.valid hnow
  cases hr with
  | invalid => exact h.record _
  | unbounded => exact h
  | full => exact (h.refill hnow).record _
  | room =>
    rw [hc] at hvalid ⊢
    exact (h.refill hnow).setBucket_data hvalid

theorem Lags.reserve_anchor {r : CountingSink × Bool} (h : Lags s t) (hnow : s.lastRefill ≤ now)
    (hr : Reserved s now c r) (hc : c.kind.cls = .anchor) :
    (t.reserve now c).2 = r.2 ∧ Lags r.1 (t.reserve now c).1 := by
  obtain ⟨hboth, hlast, hanchor⟩ := h.refill_both hnow
  have hvalid := hr.valid h.valid hnow
  have hvalid' := (reserved_reserve t now c).valid h.valid' (h.behind.trans hnow)
  cases hr with
  | invalid hw =>
    rw [(Reserved.invalid hw).eq]
    exact ⟨rfl, h.record_both _ _⟩
  | unbounded hw hb =>
    rw [hc] at hb
    have hb' : t.anchor.unbounded = true := h.unbounded ▸ hb
    rw [(Reserved.unbounded hw (hc ▸ hb')).eq]
    exact ⟨rfl, h⟩
  | full hw hb hlt =>
    rw [hc] at hb hlt
    have hb' : t.anchor.unbounded = false := h.unbounded ▸ hb
    have hlt' : (t.refill now).anchor.tokens < 1 := hanchor ▸ hlt
    rw [(Reserved.full hw (hc ▸ hb') (hc ▸ hlt')).eq]
    exact ⟨rfl, hboth.record_both _ _⟩
  | room hw hb hge =>
    rw [hc] at hb hge
    have hb' : t.anchor.unbounded = false := h.unbounded ▸ hb
    have hge' : 1 ≤ (t.refill now).anchor.tokens := hanchor ▸ hge
    rw [(Reserved.room hw (hc ▸ hb') (hc ▸ hge')).eq] at hvalid' ⊢
    rw [hc] at hvalid hvalid' ⊢
    refine ⟨rfl, lags_of_eq hvalid hvalid' hboth.rate hlast ?_⟩
    simp only [CountingSink.setBucket, bucketFor, hanchor]

theorem Lags.fill_one (h : Lags s t) : TokenBucket.fill s.anchor 1 = TokenBucket.fill (TokenBucket.fill t.anchor 1)
      (worth s.refillRate (s.lastRefill - t.lastRefill)) := by
  cases hb : s.anchor.unbounded with
  | true =>
    have hb' : t.anchor.unbounded = true := h.unbounded ▸ hb
    rw [h.anchor]
    simp only [TokenBucket.fill, hb', if_true]
  | false =>
    have hpos : 0 ≤ worth s.refillRate (s.lastRefill - t.lastRefill) :=
      worth_nonneg (h.valid.rate (.inl hb)) (sub_nonneg.mpr h.behind)
    rw [fill_fill _ _ hpos, add_comm, ← fill_fill _ _ zero_le_one, ← h.anchor]

theorem Lags.settle_data {kind : EventKind} (h : Lags s t) (hk : kind.cls = .data)
    (accepted : Bool) : Lags (s.settle kind accepted) t := by
  have hvalid := h.valid.settle kind accepted
  unfold CountingSink.settle release at hvalid ⊢
  rw [hk] at hvalid ⊢
  split
  · exact h.record _
  · next hno =>
    rw [if_neg hno] at hvalid
    exact (h.setBucket_data ⟨hvalid.anchor, hvalid.data, hvalid.rate⟩).record _

theorem Lags.settle_anchor {kind : EventKind} (h : Lags s t) (hk : kind.cls = .anchor)
    (accepted : Bool) : Lags (s.settle kind accepted) (t.settle kind accepted) := by
  have hvalid := h.valid.settle kind accepted
  have hvalid' := h.valid'.settle kind accepted
  unfold CountingSink.settle release at hvalid hvalid' ⊢
  rw [hk] at hvalid hvalid' ⊢
  cases accepted with
  | true => exact h.record_both _ _
  | false =>
    exact ⟨hvalid, hvalid', h.rate, h.behind, h.fill_one⟩

end CountingSink

namespace Admissions

open CountingSink

variable {s s' t : Admissions} {as : List Action} {a : Action} {start : Int}

def Action.calls (k : EventKind) : Action → Bool
  | .enter c _ => c.kind = k
  | _ => false

/-- The levels are within the burst, and every call so far is counted or waits. -/
structure Balanced (as : List Action) (s : Admissions) : Prop where
  valid : s.sink.Valid
  read : s.sink.lastRefill ≤ s.clock
  books : ∀ k, as.countP (Action.calls k) = (s.sink.stats.statsFor k).total + s.inFlight k

theorem balanced_new {refillPerSecond : ℚ} (start : Int) (hrate : 0 < capacity → 0 ≤ refillPerSecond) :
    Balanced [] (new capacity refillPerSecond start) where
  valid := valid_new start hrate
  read := le_rfl
  books k := by cases k <;> rfl

theorem step_enter {c : EmitCall} {now : Int} (h : s.step (.enter c now) = some s') :
    s.clock ≤ now ∧ ∃ r, Reserved s.sink now c r ∧
      s' = {
        sink := r.1
        clock := now
        inFlight := if r.2 then update s.inFlight c.kind (s.inFlight c.kind + 1)
          else s.inFlight
        answers := (c, r.2) :: s.answers } := by
  simp only [step] at h
  split at h
  · next hle => exact ⟨hle, _, reserved_reserve _ _ _, (Option.some.inj h).symm⟩
  · cases h

theorem step_settle {kind : EventKind} {accepted : Bool} (h : s.step (.settle kind accepted) = some s') :
    s.inFlight kind ≠ 0 ∧
      s' = { s with
        sink := s.sink.settle kind accepted
        inFlight := update s.inFlight kind (s.inFlight kind - 1) } := by
  simp only [step] at h
  split at h
  · cases h
  · next hne => exact ⟨hne, (Option.some.inj h).symm⟩

theorem Balanced.step (h : Balanced as s) (hstep : s.step a = some s') : Balanced (as ++ [a]) s' := by
  cases a with
  | enter c now =>
    obtain ⟨hnow, r, hr, rfl⟩ := step_enter hstep
    refine ⟨hr.valid h.valid (h.read.trans hnow), hr.lastRefill_le h.valid (h.read.trans hnow), fun k => ?_⟩
    have htotal := hr.total k
    have hbooks := h.books k
    rw [countP_append, countP_singleton]
    simp only [Action.calls, decide_eq_true_eq, eq_comm (a := c.kind)]
    cases hadm : r.2 with
    | false =>
      simp only [hadm, Bool.false_eq_true, false_and, if_false] at htotal ⊢
      omega
    | true =>
      simp only [hadm, true_and, if_true] at htotal ⊢
      rw [update_apply]
      split
      · next hk =>
          subst hk
          simp only [if_true] at htotal
          omega
      · next hk =>
          rw [if_neg hk] at htotal
          omega
  | settle kind accepted =>
    obtain ⟨hne, rfl⟩ := step_settle hstep
    refine ⟨h.valid.settle kind accepted, (lastRefill_settle _ _ _).trans_le h.read, fun k => ?_⟩
    have hbooks := h.books k
    rw [countP_append, countP_singleton, total_settle]
    simp only [Action.calls, Bool.false_eq_true, if_false, update_apply]
    split
    · next hk =>
        subst hk
        omega
    · omega
  | graphExecutions =>
    cases hstep
    refine ⟨h.valid, h.read, fun k => ?_⟩
    rw [countP_append, h.books k]
    rfl

/-! ## The anchor calls alone -/

def Action.anchor : Action → Bool
  | .enter c _ => c.kind.cls = .anchor
  | .settle kind _ => kind.cls = .anchor
  | .graphExecutions => false

def anchorAnswers (s : Admissions) : List (EmitCall × Bool) :=
  s.answers.filter fun r => r.1.kind.cls = .anchor

/-- `t` has taken only the anchor calls that `s` has taken. -/
structure Follows (s t : Admissions) : Prop where
  sink : Lags s.sink t.sink
  read : s.sink.lastRefill ≤ s.clock
  clock : t.clock ≤ s.clock
  inFlight : ∀ k : EventKind, k.cls = .anchor → t.inFlight k = s.inFlight k
  answers : t.anchorAnswers = s.anchorAnswers

theorem follows_new {refillPerSecond : ℚ} (start : Int) (hrate : 0 < capacity → 0 ≤ refillPerSecond) :
    Follows (new capacity refillPerSecond start) (new capacity refillPerSecond start) where
  sink := lags_of_eq (valid_new start hrate) (valid_new start hrate) rfl rfl rfl
  read := le_rfl
  clock := le_rfl
  inFlight _ _ := rfl
  answers := rfl

theorem EventKind.cls_ne {k k' : EventKind} (h : k.cls = .anchor) (h' : k'.cls = .data) : k ≠ k' := by
  rintro rfl
  cases h.symm.trans h'

theorem EventKind.cls_data {k : EventKind} (h : ¬k.cls = .anchor) : k.cls = .data := by
  cases hk : k.cls with
  | anchor => exact absurd hk h
  | data => rfl

theorem Follows.skip (h : Follows s t) (ha : a.anchor = false) (hstep : s.step a = some s') : Follows s' t := by
  cases a with
  | enter c now =>
    have hc : c.kind.cls = .data := EventKind.cls_data (of_decide_eq_false ha)
    obtain ⟨hnow, r, hr, rfl⟩ := step_enter hstep
    have hlast := h.read.trans hnow
    refine ⟨h.sink.reserve_data hlast hr hc, hr.lastRefill_le h.sink.valid hlast,
      h.clock.trans hnow, fun k hk => ?_, ?_⟩
    · rw [h.inFlight k hk]
      simp only
      split
      · rw [update_of_ne (EventKind.cls_ne hk hc)]
      · rfl
    · rw [h.answers, anchorAnswers, anchorAnswers, filter_cons_of_neg (by simp [hc])]
  | settle kind accepted =>
    have hc : kind.cls = .data := EventKind.cls_data (of_decide_eq_false ha)
    obtain ⟨-, rfl⟩ := step_settle hstep
    refine ⟨h.sink.settle_data hc accepted, (lastRefill_settle _ _ _).trans_le h.read, h.clock,
      fun k hk => ?_, h.answers⟩
    rw [h.inFlight k hk]
    exact (update_of_ne (EventKind.cls_ne hk hc) _ _).symm
  | graphExecutions =>
    cases hstep
    exact h

theorem Follows.both (h : Follows s t) (ha : a.anchor = true) (hstep : s.step a = some s') :
    ∃ t', t.step a = some t' ∧ Follows s' t' := by
  cases a with
  | enter c now =>
    have hc : c.kind.cls = .anchor := of_decide_eq_true ha
    obtain ⟨hnow, r, hr, rfl⟩ := step_enter hstep
    have hlast := h.read.trans hnow
    obtain ⟨hans, hlags⟩ := h.sink.reserve_anchor hlast hr hc
    refine ⟨_, if_pos (h.clock.trans hnow), hlags, hr.lastRefill_le h.sink.valid hlast, le_rfl, fun k hk => ?_, ?_⟩
    · simp only [hans]
      split
      · simp only [update_apply, h.inFlight c.kind hc, h.inFlight k hk]
      · exact h.inFlight k hk
    · have hanswers : t.answers.filter (fun r => r.1.kind.cls = .anchor) = s.anchorAnswers :=
        h.answers
      simp only [anchorAnswers, hans, filter_cons, hc, hanswers]
  | settle kind accepted =>
    have hc : kind.cls = .anchor := of_decide_eq_true ha
    obtain ⟨hne, rfl⟩ := step_settle hstep
    refine ⟨_, if_neg (h.inFlight kind hc ▸ hne), h.sink.settle_anchor hc accepted,
      (lastRefill_settle _ _ _).trans_le h.read, h.clock, fun k hk => ?_, h.answers⟩
    simp only [update_apply, h.inFlight kind hc, h.inFlight k hk]
  | graphExecutions => cases ha

/-! ## Every run -/

/-- For every interleaving of calls, whatever the delegate answers: two runs with the same
anchor calls, and any data calls, admit the same of them; the levels stay within the burst;
and every call of every kind is counted once, or still waits for the delegate. -/
theorem admission_isolated_and_balanced (capacity : Int) (refillPerSecond : ℚ) (start : Int)
    (hrate : 0 < capacity → 0 ≤ refillPerSecond) :
    (∀ as as' s s', Run (fun s a s' => s.step a = some s') (new capacity refillPerSecond start) as s →
      Run (fun s a s' => s.step a = some s') (new capacity refillPerSecond start) as' s' →
      as.filter Action.anchor = as'.filter Action.anchor →
      s.anchorAnswers = s'.anchorAnswers) ∧
    ∀ as s, Run (fun s a s' => s.step a = some s') (new capacity refillPerSecond start) as s →
      s.sink.anchor.InRange ∧ s.sink.data.InRange ∧
      ∀ k, as.countP (Action.calls k) = (s.sink.stats.statsFor k).total + s.inFlight k := by
  constructor
  · intro as as' s s' hs hs' heq
    obtain ⟨t, ht, hfollow⟩ := hs.project Action.anchor (follows_new start hrate) Follows.skip Follows.both
    obtain ⟨t', ht', hfollow'⟩ := hs'.project Action.anchor (follows_new start hrate) Follows.skip Follows.both
    rw [heq] at ht
    rw [← hfollow.answers, ht.unique ht', hfollow'.answers]
  · intro as s hs
    have hbal : Balanced as s := by
      refine Run.invariant (I := Balanced) (balanced_new start hrate) ?_ hs
      intro as s a s' _ h hstep
      exact h.step hstep
    exact ⟨hbal.valid.anchor, hbal.valid.data, hbal.books⟩

/-- Three launches, of which the second comes too soon and the delegate fails the first. -/
def threeLaunches : List Action :=
  [.enter ⟨.launch, .cpuMonotonic⟩ 0, .enter ⟨.launch, .cpuMonotonic⟩ 400000000,
    .settle .launch false, .enter ⟨.launch, .cpuMonotonic⟩ 1000000000]

/-- The same with executions between them, which have the buckets refilled early. -/
def withExecs : List Action :=
  [.enter ⟨.exec, .cpuMonotonic⟩ 0, .enter ⟨.launch, .cpuMonotonic⟩ 0,
    .enter ⟨.exec, .cpuMonotonic⟩ 300000000, .enter ⟨.launch, .cpuMonotonic⟩ 400000000,
    .settle .exec true, .settle .launch false, .enter ⟨.exec, .synced⟩ 700000000,
    .enter ⟨.launch, .cpuMonotonic⟩ 1000000000]

theorem admission_isolated_and_balanced_launches :
    ∃ s s', Run (fun s a s' => s.step a = some s') (new 1 1 0) threeLaunches s ∧
      Run (fun s a s' => s.step a = some s') (new 1 1 0) withExecs s' ∧
      s.anchorAnswers = [(⟨.launch, .cpuMonotonic⟩, true), (⟨.launch, .cpuMonotonic⟩, false),
        (⟨.launch, .cpuMonotonic⟩, true)] ∧
      s.anchorAnswers = s'.anchorAnswers ∧
      withExecs.countP (Action.calls .exec) = (s'.sink.stats.statsFor .exec).total + s'.inFlight .exec := by
  obtain ⟨s, hs, hp⟩ := @exists_run _ _ step (new 1 1 0) threeLaunches
    (fun s => s.anchorAnswers = [(⟨.launch, .cpuMonotonic⟩, true),
      (⟨.launch, .cpuMonotonic⟩, false), (⟨.launch, .cpuMonotonic⟩, true)]) (by decide +kernel)
  obtain ⟨s', hs', -⟩ := @exists_run _ _ step (new 1 1 0) withExecs (fun _ => true) (by decide +kernel)
  obtain ⟨hisolated, hbalanced⟩ := admission_isolated_and_balanced 1 1 0 fun _ => zero_le_one
  obtain ⟨-, -, hbooks⟩ := hbalanced _ _ hs'
  exact ⟨s, s', hs, hs', of_decide_eq_true hp, hisolated _ _ _ _ hs hs' (by decide), hbooks .exec⟩

end Admissions

end PerfAgent.Gpu
