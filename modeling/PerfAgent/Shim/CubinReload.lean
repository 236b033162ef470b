import PerfAgent.Shim.CubinQueue

/-!
# A module that comes again

`settle` remembers a CRC when it queues the first copy of it, before anything is known of the
offer, and skips every later copy.  As long as no offer of a remembered CRC is refused, a CRC
that is remembered has been sent or still waits for its offer; so a copy that comes when none
of its CRC waits is skipped only if the consumer has it.
-/

namespace PerfAgent.Shim

open List AssocMap

def Draining.offered? : Draining → Option CubinEntry
  | ready _ => none
  | offering _ e => some e

namespace Cubins

def hasSent (s : Cubins) (crc : Nat) : Prop := (crc, true) ∈ s.offers

instance (s : Cubins) (crc : Nat) : Decidable (s.hasSent crc) :=
  inferInstanceAs (Decidable (_ ∈ s.offers))

def inTransit (s : Cubins) : List CubinEntry :=
  s.queue.q ++ s.draining.values.filterMap Draining.offered?

def waits (s : Cubins) (crc : Nat) : Prop := ∃ e ∈ s.inTransit, e.crc = crc

instance (s : Cubins) (crc : Nat) : Decidable (s.waits crc) :=
  inferInstanceAs (Decidable (∃ e ∈ s.inTransit, e.crc = crc))

/-- `settle` will not remember this CRC: it does not, and has no room to. -/
def forgets (s : Cubins) (crc : Nat) : Prop :=
  crc ∉ s.queue.interned ∧ s.queue.limits.maxInterned ≤ s.queue.interned.card

instance (s : Cubins) (crc : Nat) : Decidable (s.forgets crc) :=
  inferInstanceAs (Decidable (_ ∧ _))

/-- The step keeps reloads safe.  A remembered CRC comes again only when it has been sent or
none of it waits, and an offer is refused only of a CRC that has been sent before or is not
remembered. -/
def ReloadSafe (s : Cubins) : CubinAct → Prop
  | .settleCrc crc => crc ∈ s.queue.interned → s.hasSent crc ∨ ¬ s.waits crc
  | .drainOffer thread accepted => accepted = false →
      ∀ e ∈ (s.draining.find? thread).bind Draining.offered?, s.hasSent e.crc ∨ s.forgets e.crc
  | _ => True

instance (s : Cubins) : ∀ a, Decidable (s.ReloadSafe a)
  | .settleCrc crc => inferInstanceAs (Decidable (crc ∈ s.queue.interned → _))
  | .drainOffer _ accepted => inferInstanceAs (Decidable (accepted = false → _))
  | .capture _ _ _ _ _ => .isTrue trivial
  | .park _ => .isTrue trivial
  | .countPendingFull _ => .isTrue trivial
  | .settle => .isTrue trivial
  | .settlePop => .isTrue trivial
  | .settleQueue => .isTrue trivial
  | .settleCountFull => .isTrue trivial
  | .settleIntern => .isTrue trivial
  | .drain _ => .isTrue trivial
  | .drainPop _ => .isTrue trivial

structure Remembered (s : Cubins) : Prop where
  interned : ∀ crc ∈ s.queue.interned, s.hasSent crc ∨ s.waits crc
  queued : ∀ {left crc}, s.settling = .queued left crc → s.hasSent crc ∨ s.waits crc ∨ s.forgets crc

variable {s s' : Cubins}

theorem mem_inTransit {e : CubinEntry} : e ∈ s.inTransit ↔
    e ∈ s.queue.q ∨ ∃ thread left, s.draining.find? thread = some (.offering left e) := by
  rw [inTransit, mem_append, mem_filterMap]
  refine or_congr Iff.rfl ⟨?_, ?_⟩
  · rintro ⟨d, hd, he⟩
    obtain ⟨thread, hthread⟩ := mem_values_iff.mp hd
    cases d with
    | ready left => cases he
    | offering left e' =>
      cases he
      exact ⟨thread, left, hthread⟩
  · rintro ⟨thread, left, hthread⟩
    exact ⟨_, mem_values_iff.mpr ⟨thread, hthread⟩, rfl⟩

/-- A step keeps this if it keeps the set, what has been sent and what is in transit, and if a
copy that has just been queued is in transit. -/
theorem Remembered.mono (hs : s.Remembered) (hset : s'.queue.interned = s.queue.interned)
    (hlim : s'.queue.limits = s.queue.limits) (hsent : s'.offers = s.offers)
    (hkeep : ∀ e ∈ s.inTransit, e ∈ s'.inTransit)
    (hq : ∀ {left crc}, s'.settling = .queued left crc →
      s.settling = .queued left crc ∨ s'.waits crc) : s'.Remembered := by
  have hwaits : ∀ {crc}, s.waits crc → s'.waits crc := by
    rintro crc ⟨e, he, hcrc⟩
    exact ⟨e, hkeep e he, hcrc⟩
  constructor
  · intro crc hcrc
    rw [hset] at hcrc
    rw [hasSent, hsent]
    exact (hs.interned crc hcrc).imp_right hwaits
  · intro left crc hqueued
    rw [hasSent, hsent, forgets, hset, hlim]
    rcases hq hqueued with h | h
    · exact (hs.queued h).imp_right (Or.imp_left hwaits)
    · exact .inr (.inl h)

theorem Remembered.settled (hs : s.Remembered) (hset : s'.queue.interned = s.queue.interned)
    (hlim : s'.queue.limits = s.queue.limits) (hsent : s'.offers = s.offers)
    (hqueue : s'.queue.q = s.queue.q) (hdrain : s'.draining = s.draining)
    (hq : ∀ {left crc}, s'.settling ≠ .queued left crc ∨ s'.settling = s.settling) :
    s'.Remembered := by
  refine hs.mono hset hlim hsent ?_ ?_
  · intro e he
    rw [inTransit, hqueue, hdrain]
    exact he
  · intro left crc h
    rcases @hq left crc with hne | heq
    · exact absurd h hne
    · exact .inl (heq ▸ h)

theorem Remembered.capture (hs : s.Remembered) {thread : Nat} {view : CubinView}
    {moduleId loadNs : Nat} {allocated : Bool}
    (h : s.capture thread view moduleId loadNs allocated = some s') : s'.Remembered := by
  rw [Cubins.capture] at h
  split_ifs at h
  · cases h
    exact hs.settled rfl rfl rfl rfl rfl (.inr rfl)
  · cases h
    exact hs.settled rfl rfl rfl rfl rfl (.inr rfl)
  · cases h
    exact hs.settled rfl rfl rfl rfl rfl (.inr rfl)
  · split at h
    · cases h
      exact hs.settled rfl rfl rfl rfl rfl (.inr rfl)
    · obtain ⟨-, h⟩ := Option.ite_none_right_eq_some.mp h
      cases h
      exact hs.settled rfl rfl rfl rfl rfl (.inr rfl)

theorem Remembered.park (hs : s.Remembered) {thread : Nat} (h : s.park thread = some s') :
    s'.Remembered := by
  rw [Cubins.park] at h
  split at h
  · split at h
    · next c hpark =>
        cases h
        obtain ⟨-, hc⟩ := Option.ite_none_left_eq_some.mp hpark
        cases hc
        exact hs.settled rfl rfl rfl rfl rfl (.inr rfl)
    · cases h
      exact hs.settled rfl rfl rfl rfl rfl (.inr rfl)
  · cases h

theorem Remembered.countPendingFull (hs : s.Remembered) {thread : Nat}
    (h : s.countPendingFull thread = some s') : s'.Remembered := by
  rw [Cubins.countPendingFull] at h
  split at h
  · cases h
    exact hs.settled rfl rfl rfl rfl rfl (.inr rfl)
  · cases h

theorem Remembered.settle (hs : s.Remembered) (h : s.settle = some s') : s'.Remembered := by
  rw [Cubins.settle] at h
  split at h
  · cases h
    exact hs.settled rfl rfl rfl rfl rfl (.inl nofun)
  · cases h

theorem Remembered.settlePop (hs : s.Remembered) (h : s.settlePop = some s') :
    s'.Remembered := by
  rw [Cubins.settlePop] at h
  split at h
  · cases h
    exact hs.settled rfl rfl rfl rfl rfl (.inl nofun)
  · split at h
    · cases h
      exact hs.settled rfl rfl rfl rfl rfl (.inl nofun)
    · next e c htake =>
        cases h
        rw [CubinQueue.takePending] at htake
        split at htake
        · cases htake
        · cases htake
          exact hs.settled rfl rfl rfl rfl rfl (.inl nofun)
  · cases h

theorem Remembered.settleCrc (hs : s.Remembered) {crc : Nat} (h : s.settleCrc crc = some s') :
    s'.Remembered := by
  rw [Cubins.settleCrc] at h
  split at h
  · split_ifs at h
    · cases h
      exact hs.settled rfl rfl rfl rfl rfl (.inl nofun)
    · cases h
      exact hs.settled rfl rfl rfl rfl rfl (.inl nofun)
    · cases h
      exact hs.settled rfl rfl rfl rfl rfl (.inl nofun)
  · cases h

theorem Remembered.settleQueue (hs : s.Remembered) (h : s.settleQueue = some s') :
    s'.Remembered := by
  rw [Cubins.settleQueue] at h
  split at h
  · next left e hkeyed =>
      split at h
      · next c hroom =>
          cases h
          obtain ⟨-, hc⟩ := Option.ite_none_left_eq_some.mp hroom
          cases hc
          refine hs.mono rfl rfl rfl ?_ ?_
          · intro e' he'
            rcases mem_inTransit.mp he' with he' | he'
            · exact mem_inTransit.mpr (.inl (mem_append_left _ he'))
            · exact mem_inTransit.mpr (.inr he')
          · rintro left' crc' ⟨⟩
            have he : e ∈ s.queue.q ++ [e] := mem_append_right _ (mem_singleton_self e)
            exact .inr ⟨e, mem_inTransit.mpr (.inl he), rfl⟩
      · cases h
        exact hs.settled rfl rfl rfl rfl rfl (.inl nofun)
  · cases h

theorem Remembered.settleCountFull (hs : s.Remembered) (h : s.settleCountFull = some s') :
    s'.Remembered := by
  rw [Cubins.settleCountFull] at h
  split at h
  · cases h
    exact hs.settled rfl rfl rfl rfl rfl (.inl nofun)
  · cases h

theorem Remembered.settleIntern (hs : s.Remembered) (h : s.settleIntern = some s') :
    s'.Remembered := by
  rw [Cubins.settleIntern] at h
  split at h
  · next left crc hqueued =>
      cases h
      refine ⟨?_, nofun⟩
      intro crc' hcrc'
      change crc' ∈ (s.queue.intern crc).interned at hcrc'
      change s.hasSent crc' ∨ (Cubins.waits { s with queue := s.queue.intern crc } crc')
      have hw : Cubins.waits { s with queue := s.queue.intern crc } crc' ↔ s.waits crc' := by
        rw [waits, waits, inTransit, inTransit, CubinQueue.intern]
        split_ifs <;> rfl
      rw [hw]
      rw [CubinQueue.intern] at hcrc'
      split_ifs at hcrc' with hroom
      · rcases Finset.mem_insert.mp hcrc' with rfl | hold
        · rcases hs.queued hqueued with h | h | h
          · exact .inl h
          · exact .inr h
          · exact absurd hroom (Nat.not_lt.mpr h.2)
        · exact hs.interned crc' hold
      · exact hs.interned crc' hcrc'
  · cases h

theorem mem_inTransit_of_ready {thread : Nat} {d : Option Draining} {e : CubinEntry}
    (hd : s.draining.find? thread = d) (hready : d.bind Draining.offered? = none)
    {draining : AssocMap Nat Draining}
    (hkeep : ∀ t, t ≠ thread → draining.find? t = s.draining.find? t) (he : e ∈ s.inTransit) :
    e ∈ inTransit { s with draining := draining } := by
  rcases mem_inTransit.mp he with he | ⟨t, left, ht⟩
  · exact mem_inTransit.mpr (.inl he)
  · refine mem_inTransit.mpr (.inr ⟨t, left, ?_⟩)
    have hne : t ≠ thread := by
      rintro rfl
      rw [← hd, ht] at hready
      cases hready
    exact (hkeep t hne).trans ht

theorem Remembered.drain (hs : s.Remembered) {thread : Nat} (h : s.drain thread = some s') :
    s'.Remembered := by
  obtain ⟨hfree, h⟩ := Option.ite_none_left_eq_some.mp h
  cases h
  have hnone : s.draining.find? thread = none := by simpa using hfree
  refine hs.mono rfl rfl rfl ?_ .inl
  intro e he
  exact mem_inTransit_of_ready hnone rfl (fun _ hne => find?_put_of_ne _ _ hne) he

theorem Remembered.drainPop (hs : s.Remembered) {thread : Nat} (h : s.drainPop thread = some s') :
    s'.Remembered := by
  rw [Cubins.drainPop] at h
  split at h
  · next hready =>
      cases h
      refine hs.mono rfl rfl rfl ?_ .inl
      intro e he
      exact mem_inTransit_of_ready hready rfl (fun _ hne => find?_del_of_ne _ hne) he
  · next left hready =>
      split at h
      · cases h
        refine hs.mono rfl rfl rfl ?_ .inl
        intro e he
        exact mem_inTransit_of_ready hready rfl (fun _ hne => find?_del_of_ne _ hne) he
      · next e c htake =>
          cases h
          rw [CubinQueue.dequeue] at htake
          split at htake
          · cases htake
          · next e₀ es hes =>
              cases htake
              refine hs.mono rfl rfl rfl ?_ .inl
              intro e' he'
              have hput := mem_inTransit_of_ready hready rfl
                (fun _ hne => find?_put_of_ne s.draining (.offering left e) hne) he'
              rcases mem_inTransit.mp hput with hq | hoffer
              · -- the copy that left the queue is being offered now
                change e' ∈ s.queue.q at hq
                rw [hes] at hq
                rcases mem_cons.mp hq with rfl | hq
                · exact mem_inTransit.mpr (.inr ⟨thread, left, find?_put_self ..⟩)
                · exact mem_inTransit.mpr (.inl hq)
              · exact mem_inTransit.mpr (.inr hoffer)
  · cases h

/-- An offer that is answered: if the CRC has been sent, or was sent before, or is not
remembered, no other copy is needed. -/
theorem Remembered.drainOffer (hs : s.Remembered) {thread : Nat} {accepted : Bool}
    (hsafe : s.ReloadSafe (.drainOffer thread accepted))
    (h : s.drainOffer thread accepted = some s') : s'.Remembered := by
  rw [Cubins.drainOffer] at h
  split at h
  · next left e hoffer =>
      cases h
      have hold : ∀ {crc}, s.hasSent crc → (crc, true) ∈ s.offers ++ [(e.crc, accepted)] :=
        fun hcrc => mem_append_left _ hcrc
      have hdone : (e.crc, true) ∈ s.offers ++ [(e.crc, accepted)] ∨ s.forgets e.crc := by
        cases accepted with
        | true => exact .inl (mem_append_right _ (mem_singleton_self _))
        | false =>
          refine (hsafe rfl e ?_).imp_left hold
          rw [hoffer]
          rfl
      have hwaits : ∀ {crc}, s.waits crc → crc = e.crc ∨
          waits { s with draining := s.draining.put thread (.ready left) } crc := by
        rintro crc ⟨e', he', hcrc⟩
        rcases mem_inTransit.mp he' with hq | ⟨t, left', ht⟩
        · exact .inr ⟨e', mem_inTransit.mpr (.inl hq), hcrc⟩
        · by_cases hne : t = thread
          · subst hne
            rw [hoffer] at ht
            cases ht
            exact .inl hcrc.symm
          · exact .inr ⟨e', mem_inTransit.mpr (.inr ⟨t, left', by
              rw [← ht]
              exact find?_put_of_ne _ _ hne⟩), hcrc⟩
      constructor
      · intro crc hcrc
        rcases hs.interned crc hcrc with hsent | hw
        · exact .inl (hold hsent)
        · rcases hwaits hw with rfl | hw
          · exact hdone.imp_right fun hf => absurd hcrc hf.1
          · exact .inr hw
      · intro left' crc hqueued
        rcases hs.queued hqueued with hsent | hw | hf
        · exact .inl (hold hsent)
        · rcases hwaits hw with rfl | hw
          · exact hdone.imp_right .inr
          · exact .inr (.inl hw)
        · exact .inr (.inr hf)
  · cases h

theorem Remembered.step (hs : s.Remembered) {a : CubinAct} (hsafe : s.ReloadSafe a)
    (h : s.step a = some s') : s'.Remembered := by
  cases a with
  | capture => exact hs.capture h
  | park => exact hs.park h
  | countPendingFull => exact hs.countPendingFull h
  | settle => exact hs.settle h
  | settlePop => exact hs.settlePop h
  | settleCrc => exact hs.settleCrc h
  | settleQueue => exact hs.settleQueue h
  | settleCountFull => exact hs.settleCountFull h
  | settleIntern => exact hs.settleIntern h
  | drain => exact hs.drain h
  | drainPop => exact hs.drainPop h
  | drainOffer => exact hs.drainOffer hsafe h

/-- In a run whose steps keep reloads safe, a copy whose CRC has never been sent is not
skipped: it goes on to the offer queue, and is queued there unless the queue is full. -/
theorem unsent_module_queued (limits : CubinQueueLimits) {as : List CubinAct} {s : Cubins}
    (hrun : Run (fun s a s' => s.ReloadSafe a ∧ s.step a = some s') { queue := { limits := limits } } as s)
    {left crc : Nat} {e : CubinEntry} (hpopped : s.settling = .popped left e) (hcrc : crc ≠ 0)
    (hsafe : s.ReloadSafe (.settleCrc crc)) (hunsent : (crc, true) ∉ s.offers) :
    s.step (.settleCrc crc) = some { s with settling := .keyed left { e with crc := crc } } ∧
      ∀ t : Cubins, t.settling = .keyed left { e with crc := crc } → t.queue.q.length < t.queue.limits.maxEntries →
        (t.queue.queuedBytes + e.len) % 2 ^ 64 ≤ t.queue.limits.maxQueuedBytes →
        ∃ t', t.step .settleQueue = some t' ∧ t'.queue.q = t.queue.q ++ [{ e with crc := crc }] := by
  have h₀ : Remembered { queue := { limits := limits } } :=
    ⟨fun crc hmem => absurd hmem (Finset.notMem_empty crc), nofun⟩
  have hs : s.Remembered :=
    Run.invariant (I := fun _ s => Remembered s) h₀ (fun _ _ _ _ _ hs ha => hs.step ha.1 ha.2) hrun
  have hnew : crc ∉ s.queue.interned := by
    intro hmem
    rcases hs.interned crc hmem with hsent | hw
    · exact hunsent hsent
    · rcases hsafe hmem with hsent | hno
      · exact hunsent hsent
      · exact hno hw
  constructor
  · rw [Cubins.step, Cubins.settleCrc, hpopped]
    simp only [hcrc, hnew, if_false]
  · intro t hkeyed hroom hbytes
    have hnotfull : ¬ (t.queue.q.length ≥ t.queue.limits.maxEntries ∨
        (t.queue.queuedBytes + e.len) % 2 ^ 64 > t.queue.limits.maxQueuedBytes) := by
      rintro (h | h)
      · exact absurd hroom (Nat.not_lt.mpr h)
      · exact absurd hbytes (Nat.not_le.mpr h)
    have henqueue : t.queue.enqueue { e with crc := crc } = some { t.queue with
        q := t.queue.q ++ [{ e with crc := crc }]
        queuedBytes := (t.queue.queuedBytes + e.len) % 2 ^ 64 } := if_neg hnotfull
    refine ⟨{ t with
        queue := { t.queue with
          q := t.queue.q ++ [{ e with crc := crc }]
          queuedBytes := (t.queue.queuedBytes + e.len) % 2 ^ 64 }
        settling := .queued left crc }, ?_, rfl⟩
    rw [Cubins.step, Cubins.settleQueue, hkeyed]
    simp only [henqueue]

/-- A module is captured and sent, and another one is captured whose queue was full at first. -/
def comesAgain : List CubinAct :=
  [.capture 0 ⟨some [1, 2]⟩ 7 100 true, .park 0, .capture 0 ⟨some [3]⟩ 8 200 true, .park 0, .settle,
    .settlePop, .settleCrc 5, .settleQueue, .settleIntern, .settlePop, .settleCrc 6, .settleQueue,
    .settleCountFull, .settlePop, .drain 0, .drainPop 0, .drainOffer 0 true, .drainPop 0,
    .capture 0 ⟨some [3]⟩ 8 300 true, .park 0, .settle, .settlePop]

theorem unsent_module_queued_after_full : ∃ s s' : Cubins, Run (fun s a s' => s.ReloadSafe a ∧ s.step a = some s')
        { queue := { limits := { maxEntries := 1 } } } comesAgain s ∧
      s.queue.stats.queueFull = 1 ∧ s.step (.settleCrc 6) = some s' ∧
      s'.settling = .keyed 0 { crc := 6, moduleId := 8, loadNs := 300, bytes := [3] } := by
  obtain ⟨s, hrun, hp⟩ := exists_guarded_run Cubins.step ReloadSafe
    { queue := { limits := { maxEntries := 1 } } } comesAgain
    (fun s => s.queue.stats.queueFull = 1 ∧ s.settling = .popped 0 { moduleId := 8, loadNs := 300, bytes := [3] } ∧
      s.ReloadSafe (.settleCrc 6) ∧ (6, true) ∉ s.offers) (by decide +kernel)
  obtain ⟨hfull, hpopped, hsafe, hunsent⟩ := of_decide_eq_true hp
  exact ⟨s, _, hrun, hfull, (unsent_module_queued { maxEntries := 1 } hrun hpopped (by decide) hsafe hunsent).1, rfl⟩

/-- A module whose offer was refused is skipped when it is loaded again. -/
theorem refused_module_skipped : ∃ s s' : Cubins, Run (fun s a s' => s.step a = some s') {}
        [.capture 0 ⟨some [1, 2]⟩ 7 100 true, .park 0, .settle, .settlePop, .settleCrc 5,
          .settleQueue, .settleIntern, .settlePop, .drain 0, .drainPop 0, .drainOffer 0 false,
          .drainPop 0, .capture 0 ⟨some [1, 2]⟩ 7 200 true, .park 0, .settle, .settlePop] s ∧
      s.settling = .popped 0 { moduleId := 7, loadNs := 200, bytes := [1, 2] } ∧
      s.queue.q = [] ∧ (5, true) ∉ s.offers ∧
      s.step (.settleCrc 5) = some s' ∧
      s'.queue.stats.reloadSkipped = s.queue.stats.reloadSkipped + 1 ∧ s'.settling = .ready 0 := by
  obtain ⟨s, hrun, hp⟩ := @exists_run _ _ Cubins.step {}
    [.capture 0 ⟨some [1, 2]⟩ 7 100 true, .park 0, .settle, .settlePop, .settleCrc 5,
      .settleQueue, .settleIntern, .settlePop, .drain 0, .drainPop 0, .drainOffer 0 false,
      .drainPop 0, .capture 0 ⟨some [1, 2]⟩ 7 200 true, .park 0, .settle, .settlePop]
    (fun s => s.settling = .popped 0 { moduleId := 7, loadNs := 200, bytes := [1, 2] } ∧
      s.queue.q = [] ∧ (5, true) ∉ s.offers ∧ 5 ∈ s.queue.interned) (by decide +kernel)
  obtain ⟨hpopped, hq, hunsent, hknown⟩ := of_decide_eq_true hp
  refine ⟨s, { (s.count fun c => { c with reloadSkipped := c.reloadSkipped + 1 }) with
    settling := .ready 0 }, hrun, hpopped, hq, hunsent, ?_, rfl, rfl⟩
  rw [Cubins.step, Cubins.settleCrc, hpopped]
  simp [hknown]

end Cubins

end PerfAgent.Shim
