import PerfAgent.Bpf.GpuUsdt

/-!
# What one firing delivers and what it counts

Every firing submits at most one event, and the records that are not in it should be in the
`dropped` counter of their kind.  `delivered` and `counted` say, from the answers alone, which
event is submitted and how much is counted; the program does exactly that, and comparing the
two gives the exact condition under which nothing is lost in silence.
-/

namespace PerfAgent.Bpf

open List

def SampledWalk.comesBack : SampledWalk → Bool
  | returned _ => true
  | resumed next => next.comesBack
  | _ => false

namespace Firing

/-- The slot of `dropped` that the firing's records are counted in. -/
def slot (f : Firing) : Nat := if recordSize f.kind = 0 then kindUnknown else f.kind

def taken (f : Firing) : Nat := min f.count (maxRecords f.kind)

def parks (f : Firing) : Bool :=
  f.kind = kindLaunchSampled ∧ f.found .walkState ∧ f.found .walkRecord ∧ f.found .pending

def emits (f : Firing) : Bool := !f.parks || f.walk.comesBack

/-- The batch can be emitted there: the parked batch is found, the ring has room, and the
records can be read. -/
def deliverable (f : Firing) : Bool :=
  (!f.parks || f.found .pendingAgain) && f.reserved && (readUser f.memory f.ptr (f.taken * recordSize f.kind)).isSome

end Firing

namespace GpuMaps

/-- From `m` to `m'` the events `es` were submitted and `n` records counted in a slot. -/
structure Effect (m m' : GpuMaps) (slot : Nat) (es : List BatchEvent) (n : Nat) : Prop where
  events : m'.events = m.events ++ es
  dropped : m'.dropped slot = m.dropped slot + UInt64.ofNat n

variable {m m' m'' : GpuMaps} {f : Firing} {slot : Nat} {es es' : List BatchEvent} {a b : Nat}

theorem Effect.none (hevents : m'.events = m.events) (hdropped : m'.dropped = m.dropped) : Effect m m' slot [] 0 :=
  ⟨by rw [hevents, append_nil], by rw [hdropped]; exact (add_zero _).symm⟩

theorem Effect.trans (h : Effect m m' slot es a) (h' : Effect m' m'' slot es' b) :
    Effect m m'' slot (es ++ es') (a + b) where
  events := by rw [h'.events, h.events, append_assoc]
  dropped := by rw [h'.dropped, h.dropped, UInt64.ofNat_add, add_assoc]

theorem effect_countDrop (hslot : slot < kindMax) (found : Bool) (n : Nat) :
    Effect m (m.countDrop found slot n) slot [] (if found then n else 0) := by
  rw [countDrop, if_neg (Nat.not_le.mpr hslot)]
  cases found with
  | false => exact .none rfl rfl
  | true => exact ⟨(append_nil _).symm, Function.update_self ..⟩

theorem effect_countWalkError (err : Nat) : Effect m (m.countWalkError f err) slot [] 0 := by
  rw [countWalkError]
  split_ifs <;> exact .none rfl rfl

theorem effect_countStackMissing (kind : Nat) : Effect m (m.countStackMissing f kind) slot [] 0 := by
  rw [countStackMissing]
  split_ifs <;> exact .none rfl rfl

theorem effect_gpuPublishStack (nPcs : Nat) : Effect m (m.gpuPublishStack f nPcs).2 slot [] 0 := by
  have herr : ∀ err, Effect m ((-1 : Int), m.countWalkError f err).2 slot [] 0 :=
    effect_countWalkError
  rw [gpuPublishStack]
  split
  · exact herr _
  split
  · exact herr _
  split
  · exact herr _
  split
  · exact herr _
  · exact .none rfl rfl

/-- The event that the firing should submit: the records it has taken, in a payload of just
their size. -/
structure Sized (f : Firing) (e : BatchEvent) : Prop where
  kind : e.kind = f.kind
  count : e.count = f.taken
  bytes : e.bytes = f.taken * recordSize f.kind
  payload : e.payload.length = e.bytes

theorem effect_submit (m : GpuMaps) (slot : Nat) {stackId : Int} {seq : Nat} {payload : List UInt8}
    (h : Firing.readUser f.memory f.ptr (f.taken * recordSize f.kind) = some payload) :
    ∃ e, Sized f e ∧ Effect m (m.submit f f.kind f.taken seq (f.taken * recordSize f.kind) stackId
      payload) slot [e] 0 :=
  ⟨_, ⟨rfl, rfl, rfl, Firing.length_readUser h⟩, rfl, (add_zero _).symm⟩

/-- What happens from the point on where the count has been clamped. -/
inductive Emitted (m m' : GpuMaps) (f : Firing) : Prop
  | /-- One event with all the records. -/
    delivered {e : BatchEvent} (hemits : f.emits = true) (hdeliverable : f.deliverable = true)
      (hsized : Sized f e) (heffect : Effect m m' f.kind [e] 0)
  | /-- No event, and a lookup of `dropped`. -/
    dropped (hemits : f.emits = true) (hdeliverable : f.deliverable = false)
      (heffect : Effect m m' f.kind [] (if f.found .droppedAtEnd then f.taken else 0))
  | /-- Control has left for good. -/
    lost (hemits : f.emits = false) (heffect : Effect m m' f.kind [] 0)

theorem Emitted.after (h : Effect m m' f.kind [] 0) (h' : Emitted m' m'' f) : Emitted m m'' f := by
  cases h' with
  | delivered hemits hdel hsized heffect =>
    exact .delivered hemits hdel hsized (Nat.zero_add 0 ▸ h.trans heffect)
  | dropped hemits hdel heffect =>
    refine .dropped hemits hdel ?_
    have := h.trans heffect
    rwa [Nat.zero_add] at this
  | lost hemits heffect => exact .lost hemits (Nat.zero_add 0 ▸ h.trans heffect)

theorem emitted_gpuEmitPlain (hkind : recordSize f.kind ≠ 0) (hparks : f.parks = false) :
    Emitted m (m.gpuEmitPlain f f.kind f.taken f.seq (f.taken * recordSize f.kind) f.ptr) f := by
  have hlt := (maxRecords_spec hkind).2.2.2
  have hemits : f.emits = true := by rw [Firing.emits, hparks]; rfl
  rw [gpuEmitPlain]
  cases hres : f.reserved with
  | false =>
    refine .dropped hemits ?_ (effect_countDrop hlt _ _)
    rw [Firing.deliverable, hres, Bool.and_false, Bool.false_and]
  | true =>
    cases hread : Firing.readUser f.memory f.ptr (f.taken * recordSize f.kind) with
    | none =>
      refine .dropped hemits ?_ (effect_countDrop hlt _ _)
      rw [Firing.deliverable, hread]
      exact Bool.and_false _
    | some payload =>
      obtain ⟨e, hsized, heffect⟩ := effect_submit m f.kind hread
      refine .delivered hemits ?_ hsized heffect
      rw [Firing.deliverable, hparks, hres, hread]
      rfl

theorem emitted_emitSampled (hkind : f.kind = kindLaunchSampled) (hparks : f.parks = true)
    (hback : f.walk.comesBack = true) (hcount : f.count ≠ 0)
    (hpending : m.pending = { ptr := f.ptr, seq := f.seq, count := f.taken, kind := f.kind,
                              bytes := f.taken * recordSize f.kind }) (nPcs : Nat) :
    Emitted m (m.emitSampled f nPcs) f := by
  have hone : f.taken = 1 := by
    rw [Firing.taken, hkind]
    exact Nat.min_eq_right (Nat.one_le_iff_ne_zero.mpr hcount)
  have hsize : f.taken * recordSize f.kind = recLaunchSampled := by
    rw [hone, hkind]
    rfl
  have hlt : f.kind < kindMax := by rw [hkind]; decide
  have hemits : f.emits = true := by
    rw [Firing.emits, hback]
    exact Bool.or_true _
  have hdrop : ∀ hdel : f.deliverable = false, Emitted m (m.countDrop (f.found .droppedAtEnd) f.kind f.taken) f :=
    fun hdel => .dropped hemits hdel (effect_countDrop hlt _ _)
  rw [emitSampled, hpending]
  cases hagain : f.found .pendingAgain with
  | false =>
    have hdel : f.deliverable = false := by
      rw [Firing.deliverable, hparks, hagain]
      rfl
    have := hdrop hdel
    rwa [hone, hkind] at this
  | true =>
    have hcons : ¬ (f.kind ≠ kindLaunchSampled ∨ f.taken ≠ 1 ∨ f.taken * recordSize f.kind ≠ recLaunchSampled) := by
      rintro (h | h | h)
      · exact h hkind
      · exact h hone
      · exact h hsize
    simp only [Bool.not_true, Bool.false_eq_true, if_false, hcons]
    cases hres : f.reserved with
    | false =>
      refine hdrop ?_
      rw [Firing.deliverable, hres, Bool.and_false, Bool.false_and]
    | true =>
      cases hread : Firing.readUser f.memory f.ptr (f.taken * recordSize f.kind) with
      | none =>
        refine hdrop ?_
        rw [Firing.deliverable, hread]
        exact Bool.and_false _
      | some payload =>
        have hdel : f.deliverable = true := by
          rw [Firing.deliverable, hagain, hres, hread, Bool.or_true]
          rfl
        have hmissing : Effect m (if (m.gpuPublishStack f nPcs).1 < 0 then
            (m.gpuPublishStack f nPcs).2.countStackMissing f kindLaunchSampled
            else (m.gpuPublishStack f nPcs).2) f.kind [] 0 := by
          split_ifs
          · exact (effect_gpuPublishStack nPcs).trans (effect_countStackMissing _)
          · exact effect_gpuPublishStack nPcs
        refine Emitted.after hmissing ?_
        obtain ⟨e, hsized, heffect⟩ := effect_submit _ f.kind hread
        exact .delivered hemits hdel hsized heffect

theorem emitted_gpuSampledWalk (hkind : f.kind = kindLaunchSampled) (hparks : f.parks = true) (hcount : f.count ≠ 0)
    (hpending : m.pending = { ptr := f.ptr, seq := f.seq, count := f.taken, kind := f.kind,
                              bytes := f.taken * recordSize f.kind }) :
    ∀ walk : SampledWalk, walk.comesBack = f.walk.comesBack → Emitted m (m.gpuSampledWalk f walk) f := by
  have hlost : f.walk.comesBack = false → Emitted m m f := by
    intro hback
    refine .lost ?_ (.none rfl rfl)
    rw [Firing.emits, hparks, hback]
    rfl
  intro walk
  induction walk with
  | notFound => exact fun h => hlost h.symm
  | returned nPcs => exact fun h => emitted_emitSampled hkind hparks h.symm hcount hpending nPcs
  | unwinderNotFound => exact fun h => hlost h.symm
  | stepNotReached => exact fun h => hlost h.symm
  | walkNotReached => exact fun h => hlost h.symm
  | resumed next ih => exact ih

theorem emitted_emitBatch (hkind : recordSize f.kind ≠ 0) (hcount : f.count ≠ 0) :
    Emitted m (m.emitBatch f f.taken) f := by
  obtain ⟨-, hmax, hfits, -⟩ := maxRecords_spec hkind
  have htaken : f.taken ≤ maxRecords f.kind := Nat.min_le_right ..
  have hbytes : f.taken * recordSize f.kind ≤ payloadBytes :=
    (Nat.mul_le_mul_right _ htaken).trans hfits
  have hsmall : f.taken % 2 ^ 32 = f.taken :=
    Nat.mod_eq_of_lt ((htaken.trans hmax).trans_lt (by decide))
  have hmod : f.taken * recordSize f.kind % 2 ^ 32 = f.taken * recordSize f.kind :=
    Nat.mod_eq_of_lt (hbytes.trans_lt (by decide))
  simp only [emitBatch, hsmall, hmod, if_neg (Nat.not_lt.mpr hbytes)]
  split
  · next hne =>
      exact emitted_gpuEmitPlain hkind (by simp [Firing.parks, hne])
  · next heq =>
      have heq : f.kind = kindLaunchSampled := not_not.mp heq
      split
      · next hmiss =>
          refine Emitted.after ((effect_countWalkError walkErrNoScratch).trans
            (effect_countStackMissing kindLaunchSampled)) (emitted_gpuEmitPlain hkind ?_)
          rw [Firing.parks, decide_eq_false_iff_not]
          rintro ⟨-, h₁, h₂, h₃⟩
          simp [h₁, h₂, h₃] at hmiss
      · next hfound =>
          have hparks : f.parks = true := by
            simp only [not_or, Bool.not_eq_true', Bool.not_eq_false] at hfound
            exact decide_eq_true ⟨heq, hfound.1, hfound.2.1, hfound.2.2⟩
          have hpark : Effect m (m.park f f.taken (f.taken * recordSize f.kind)) f.kind [] 0 :=
            .none rfl rfl
          exact .after hpark (emitted_gpuSampledWalk heq hparks hcount rfl f.walk rfl)

def clamped (f : Firing) : Nat :=
  if f.count > maxRecords f.kind ∧ f.found .droppedAtClamp = true then f.count - maxRecords f.kind
  else 0

theorem gpuUsdtBatch_known (m : GpuMaps) (hkind : recordSize f.kind ≠ 0) (hcount : f.count ≠ 0) :
    ∃ m', Effect m m' f.kind [] (clamped f) ∧ Emitted m' (m.gpuUsdtBatch f) f := by
  have hlt := (maxRecords_spec hkind).2.2.2
  rw [gpuUsdtBatch, if_neg hkind, if_neg hcount]
  by_cases hover : f.count > maxRecords f.kind
  · have htaken : f.taken = maxRecords f.kind := Nat.min_eq_right hover.le
    refine ⟨m.countDrop (f.found .droppedAtClamp) f.kind (f.count - maxRecords f.kind), ?_, ?_⟩
    · have heffect := effect_countDrop (m := m) hlt (f.found .droppedAtClamp)
        (f.count - maxRecords f.kind)
      rw [clamped]
      simpa only [hover, true_and] using heffect
    · rw [if_pos hover, ← htaken]
      exact emitted_emitBatch hkind hcount
  · have htaken : f.taken = f.count := Nat.min_eq_left (Nat.le_of_not_lt hover)
    refine ⟨m, ?_, ?_⟩
    · rw [clamped, if_neg fun h => hover h.1]
      exact .none rfl rfl
    · rw [if_neg hover]
      have := emitted_emitBatch (m := m) hkind hcount
      rwa [htaken] at this

theorem dropped_eq_iff {x : UInt64} {n k : Nat} (hn : n < 2 ^ 64) (hk : k < 2 ^ 64) :
    x + UInt64.ofNat n = x + UInt64.ofNat k ↔ n = k := by
  rw [add_right_inj]
  constructor
  · intro h
    have := congrArg UInt64.toNat h
    rwa [UInt64.toNat_ofNat_of_lt' hn, UInt64.toNat_ofNat_of_lt' hk] at this
  · rintro rfl
    rfl

/-- One event has been submitted, whose count times the record size is the length of its
payload and within the payload's limit, or none has and all records are counted as dropped. -/
def Accounted (m m' : GpuMaps) (f : Firing) : Prop :=
  (∃ e, m'.events = m.events ++ [e] ∧ e.count * recordSize e.kind = e.bytes ∧
      e.payload.length = e.bytes ∧ e.bytes ≤ payloadBytes) ∨
    m'.events = m.events ∧ m'.dropped f.slot = m.dropped f.slot + UInt64.ofNat f.count

/-- At most one event has been submitted, and what is not in it is counted as dropped. -/
def EveryRecord (m m' : GpuMaps) (f : Firing) : Prop :=
  ∃ es : List BatchEvent, m'.events = m.events ++ es ∧ es.length ≤ 1 ∧ m'.dropped f.slot = m.dropped f.slot +
      UInt64.ofNat (f.count - (es.map BatchEvent.count).sum)

end GpuMaps

/-- The answers with which a firing ends in an event or in the counter: control comes back
from the walk, and if the batch cannot be delivered the counter is found each time. -/
def Firing.Loud (f : Firing) : Prop :=
  f.count = 0 ∨
    if recordSize f.kind = 0 then f.found .droppedAtEnd = true
    else f.emits = true ∧ (f.deliverable = true ∨ f.found .droppedAtEnd = true ∧
      (f.count ≤ maxRecords f.kind ∨ f.found .droppedAtClamp = true))

def Firing.Complete (f : Firing) : Prop :=
  f.count = 0 ∨
    if recordSize f.kind = 0 then f.found .droppedAtEnd = true
    else f.emits = true ∧ (f.deliverable = true ∨ f.found .droppedAtEnd = true) ∧
      (f.count ≤ maxRecords f.kind ∨ f.found .droppedAtClamp = true)

namespace GpuMaps

/-- Both accounts, read off what was submitted and counted. -/
theorem Effect.accounts_loud {n : Nat} (hn : n < 2 ^ 64) (h : Effect m m' f.slot [] n) :
    (Accounted m m' f ↔ n = f.count) ∧ (EveryRecord m m' f ↔ n = f.count) := by
  have hevents : m'.events = m.events := h.events.trans (append_nil _)
  constructor
  · constructor
    · rintro (⟨e, he, -⟩ | ⟨-, hd⟩)
      · rw [hevents] at he
        exact absurd (self_eq_append_right.mp he) (cons_ne_nil _ _)
      · rwa [h.dropped, dropped_eq_iff hn f.count_lt] at hd
    · rintro rfl
      exact .inr ⟨hevents, h.dropped⟩
  · constructor
    · rintro ⟨es, hes, -, hd⟩
      rw [hevents] at hes
      rw [self_eq_append_right.mp hes] at hd
      rwa [h.dropped, dropped_eq_iff hn (by exact f.count_lt)] at hd
    · rintro rfl
      exact ⟨[], h.events, Nat.zero_le _, h.dropped⟩

theorem Effect.accounts_event {n : Nat} {e : BatchEvent} (hkind : recordSize f.kind ≠ 0)
    (hn : n < 2 ^ 64) (hsized : Sized f e) (h : Effect m m' f.slot [e] n) :
    Accounted m m' f ∧ (EveryRecord m m' f ↔ n = f.count - f.taken) := by
  obtain ⟨-, -, hfits, -⟩ := maxRecords_spec hkind
  constructor
  · refine .inl ⟨e, h.events, ?_, hsized.payload, ?_⟩
    · rw [hsized.count, hsized.kind, hsized.bytes]
    · rw [hsized.bytes]
      exact (Nat.mul_le_mul_right _ (Nat.min_le_right ..)).trans hfits
  · constructor
    · rintro ⟨es, hes, -, hd⟩
      rw [h.events] at hes
      obtain rfl := append_cancel_left hes
      have hlt : f.count - ([e].map BatchEvent.count).sum < 2 ^ 64 :=
        (Nat.sub_le ..).trans_lt f.count_lt
      rw [h.dropped, dropped_eq_iff hn hlt] at hd
      rw [hd, ← hsized.count]
      rfl
    · intro hcount
      refine ⟨[e], h.events, le_rfl, ?_⟩
      rw [h.dropped, hcount, ← hsized.count]
      rfl

theorem clamped_add_taken_iff (f : Firing) : clamped f + f.taken = f.count ↔
      f.count ≤ maxRecords f.kind ∨ f.found .droppedAtClamp = true := by
  rw [clamped, Firing.taken]
  split_ifs with h
  · exact iff_of_true (by omega) (.inr h.2)
  · constructor
    · intro heq
      exact .inl (by omega)
    · rintro (hle | hfound)
      · omega
      · have hle : f.count ≤ maxRecords f.kind := Nat.le_of_not_lt fun hgt => h ⟨hgt, hfound⟩
        omega

theorem clamped_lt (hkind : recordSize f.kind ≠ 0) (hcount : f.count ≠ 0) : clamped f < f.count := by
  have hone := (maxRecords_spec hkind).1
  rw [clamped]
  split_ifs <;> omega

/-- A firing ends in an event or in the counter exactly when it is loud, and accounts for
every record exactly when it is complete. -/
theorem batch_accounted_iff (m : GpuMaps) (f : Firing) : (Accounted m (m.gpuUsdtBatch f) f ↔ f.Loud) ∧
      (EveryRecord m (m.gpuUsdtBatch f) f ↔ f.Complete) := by
  have hlt := f.count_lt
  by_cases hkind : recordSize f.kind = 0
  · -- a cookie that names no kind: everything is counted in slot 0
    have hslot : f.slot = kindUnknown := if_pos hkind
    have heffect : Effect m (m.gpuUsdtBatch f) f.slot [] (if f.found .droppedAtEnd then f.count else 0) := by
      rw [gpuUsdtBatch, if_pos hkind, hslot]
      exact effect_countDrop (by decide) _ _
    have hiff : (if f.found .droppedAtEnd then f.count else 0) = f.count ↔
        f.count = 0 ∨ f.found .droppedAtEnd = true := by
      split_ifs with h
      · exact iff_of_true rfl (.inr h)
      · exact ⟨fun h₀ => .inl h₀.symm, fun h₀ => (h₀.resolve_right h).symm⟩
    obtain ⟨h₁, h₂⟩ := heffect.accounts_loud (by split_ifs <;> omega)
    rw [Firing.Loud, Firing.Complete, if_pos hkind, if_pos hkind]
    exact ⟨h₁.trans hiff, h₂.trans hiff⟩
  have hslot : f.slot = f.kind := if_neg hkind
  by_cases hcount : f.count = 0
  · have heffect : Effect m (m.gpuUsdtBatch f) f.slot [] 0 := by
      rw [gpuUsdtBatch, if_neg hkind, if_pos hcount]
      exact .none rfl rfl
    obtain ⟨h₁, h₂⟩ := heffect.accounts_loud (by decide)
    exact ⟨h₁.trans (iff_of_true hcount.symm (.inl hcount)), h₂.trans (iff_of_true hcount.symm (.inl hcount))⟩
  rw [Firing.Loud, Firing.Complete, if_neg hkind, if_neg hkind]
  have hclamp := clamped_lt hkind hcount
  have htaken := clamped_add_taken_iff f
  have hle : f.taken ≤ f.count := Nat.min_le_left ..
  obtain ⟨m', hfirst, hrest⟩ := gpuUsdtBatch_known m hkind hcount
  rw [← hslot] at hfirst
  cases hrest with
  | delivered hemits hdel hsized heffect =>
    rw [← hslot] at heffect
    obtain ⟨h₁, h₂⟩ := (hfirst.trans heffect).accounts_event hkind (by omega) hsized
    have hcounted : clamped f + 0 = f.count - f.taken ↔ clamped f + f.taken = f.count := by
      omega
    rw [hcounted, htaken] at h₂
    simp only [hcount, hemits, hdel, h₁, h₂, true_or, true_and, false_or, and_self]
  | dropped hemits hdel heffect =>
    rw [← hslot] at heffect
    cases hfound : f.found .droppedAtEnd with
    | true =>
      rw [hfound, if_pos rfl] at heffect
      have hsum : clamped f + f.taken ≤ f.count := by
        rw [clamped, Firing.taken]
        split_ifs <;> omega
      obtain ⟨h₁, h₂⟩ := (hfirst.trans heffect).accounts_loud (hsum.trans_lt hlt)
      rw [htaken] at h₁ h₂
      simp [hcount, hemits, hdel, h₁, h₂]
    | false =>
      rw [hfound] at heffect
      obtain ⟨h₁, h₂⟩ := (hfirst.trans heffect).accounts_loud (by simp; omega)
      have hne : clamped f ≠ f.count := hclamp.ne
      simpa [hcount, hdel, hne] using And.intro h₁ h₂
  | lost hemits heffect =>
    rw [← hslot] at heffect
    obtain ⟨h₁, h₂⟩ := (hfirst.trans heffect).accounts_loud (by omega)
    have hne : clamped f + 0 ≠ f.count := hclamp.ne
    simp only [hcount, hemits, h₁, h₂, hne, Bool.false_eq_true, false_and, or_self, and_self]

/-- A sampled launch whose walk state is found when the batch is parked and not when the walk
begins. -/
def parkedAndLost : Firing where
  ptr := 4096
  count := 1
  seq := 0
  cookie := 5
  pidTgid := 0
  found := fun _ => true
  reserved := true
  memory := fun _ => some 0
  walk := .notFound
  stackIdSeq := 0
  cpu := 0
  inserted := 0
  count_lt := by decide

/-- The launch is neither submitted nor counted. -/
theorem batch_lost_in_silence : ¬ Accounted {} (gpuUsdtBatch {} parkedAndLost) parkedAndLost := by
  have hevents : (gpuUsdtBatch {} parkedAndLost).events = [] := by decide +kernel
  have hdropped : (gpuUsdtBatch {} parkedAndLost).dropped parkedAndLost.slot = 0 := by
    decide +kernel
  rintro (⟨e, he, -⟩ | ⟨-, hd⟩)
  · rw [hevents] at he
    exact absurd he (cons_ne_nil _ _).symm
  · rw [hdropped] at hd
    exact absurd hd (by decide +kernel)

end GpuMaps

end PerfAgent.Bpf
