import PerfAgent.Shim.CubinQueue

/-!
# Every captured module is accounted for

Each step of a thread moves one record from one place to the next: from a capture that has
returned to the pending list, to the hands of the settling thread, to the offer queue, to the
hands of a draining thread, to a counter.  The byte gauges follow the two lists, and the sums
they are made of do not wrap because everything summed up is allocated.
-/

namespace PerfAgent.Shim

open AssocMap

@[simp] theorem totalLen_nil : totalLen [] = 0 := rfl

@[simp] theorem totalLen_cons (e : CubinEntry) (es : List CubinEntry) : totalLen (e :: es) = e.len + totalLen es := by
  simp [totalLen]

@[simp] theorem totalLen_append (es es' : List CubinEntry) : totalLen (es ++ es') = totalLen es + totalLen es' := by
  simp [totalLen]

def CubinStats.refusals (c : CubinStats) : Nat :=
  c.tooLarge + c.allocFailed + c.pendingFull + c.crcFailed + c.reloadSkipped + c.queueFull

namespace CubinQueue

/-- The gauges say what the lists hold, and are within their bounds. -/
structure Gauged (c : CubinQueue) : Prop where
  pending : c.pendingBytes = totalLen c.pending
  queued : c.queuedBytes = totalLen c.q
  pendingWithin : c.pendingBytes ≤ c.limits.maxPendingBytes
  queuedWithin : c.queuedBytes ≤ c.limits.maxQueuedBytes

variable {c c' : CubinQueue} {e : CubinEntry}

theorem Gauged.park (hc : c.Gauged) (hlt : totalLen c.pending + e.len < 2 ^ 64)
    (h : c.park e = some c') : c'.Gauged ∧ c' = { c with
      pending := c.pending ++ [e], pendingBytes := totalLen c.pending + e.len } := by
  rw [CubinQueue.park, hc.pending, Nat.mod_eq_of_lt hlt, Option.ite_none_left_eq_some] at h
  obtain ⟨hroom, h⟩ := h
  cases h
  refine ⟨⟨?_, hc.queued, ?_, hc.queuedWithin⟩, rfl⟩
  · simp
  · exact Nat.le_of_not_lt fun hgt => hroom (.inr hgt)

theorem Gauged.enqueue (hc : c.Gauged) (hlt : totalLen c.q + e.len < 2 ^ 64)
    (h : c.enqueue e = some c') : c'.Gauged ∧ c' = { c with
      q := c.q ++ [e], queuedBytes := totalLen c.q + e.len } := by
  rw [CubinQueue.enqueue, hc.queued, Nat.mod_eq_of_lt hlt, Option.ite_none_left_eq_some] at h
  obtain ⟨hroom, h⟩ := h
  cases h
  refine ⟨⟨hc.pending, ?_, hc.pendingWithin, ?_⟩, rfl⟩
  · simp
  · exact Nat.le_of_not_lt fun hgt => hroom (.inr hgt)

theorem Gauged.takePending (hc : c.Gauged) (hlt : totalLen c.pending < 2 ^ 64)
    (h : c.takePending = some (e, c')) : c'.Gauged ∧ ∃ es, c.pending = e :: es ∧
      c' = { c with pending := es, pendingBytes := totalLen es } := by
  rw [CubinQueue.takePending] at h
  split at h
  · cases h
  · next e₀ es hes =>
      cases h
      have hb := hc.pending
      have hw := hc.pendingWithin
      rw [hes, totalLen_cons] at hb hlt
      have hsub : (c.pendingBytes + 2 ^ 64 - e.len) % 2 ^ 64 = totalLen es := by omega
      rw [hsub]
      refine ⟨⟨rfl, hc.queued, ?_, hc.queuedWithin⟩, es, hes, rfl⟩
      change totalLen es ≤ c.limits.maxPendingBytes
      omega

theorem Gauged.dequeue (hc : c.Gauged) (hlt : totalLen c.q < 2 ^ 64)
    (h : c.dequeue = some (e, c')) : c'.Gauged ∧ ∃ es, c.q = e :: es ∧
      c' = { c with q := es, queuedBytes := totalLen es } := by
  rw [CubinQueue.dequeue] at h
  split at h
  · cases h
  · next e₀ es hes =>
      cases h
      have hb := hc.queued
      have hw := hc.queuedWithin
      rw [hes, totalLen_cons] at hb hlt
      have hsub : (c.queuedBytes + 2 ^ 64 - e.len) % 2 ^ 64 = totalLen es := by omega
      rw [hsub]
      refine ⟨⟨hc.pending, rfl, hc.pendingWithin, ?_⟩, es, hes, rfl⟩
      change totalLen es ≤ c.limits.maxQueuedBytes
      omega

theorem intern_eq (c : CubinQueue) (crc : Nat) : ∃ known, c.intern crc = { c with interned := known } := by
  rw [intern]
  split
  · exact ⟨_, rfl⟩
  · exact ⟨c.interned, rfl⟩

end CubinQueue

namespace Cubins

/-- The records that a capture has put into the queue's care, wherever they are now. -/
def accounted (s : Cubins) : Nat :=
  s.queue.stats.refusals + s.queue.stats.sent + s.queue.stats.sendFailed +
    s.queue.pending.length + s.queue.q.length + s.settling.inFlight +
    s.draining.sum Draining.inFlight

structure Conserved (limits : CubinQueueLimits) (s : Cubins) : Prop where
  limits : s.queue.limits = limits
  gauged : s.queue.Gauged
  live : s.liveBytes < 2 ^ 64
  accounted : s.returned = s.accounted

variable {limits : CubinQueueLimits} {s s' : Cubins}

theorem Conserved.capture (hs : s.Conserved limits) {thread : Nat} {view : CubinView}
    {moduleId loadNs : Nat} {allocated : Bool}
    (h : s.capture thread view moduleId loadNs allocated = some s') : s'.Conserved limits := by
  have hrefuse : ∀ f : CubinStats → CubinStats, (f s.queue.stats).refusals =
        s.queue.stats.refusals + 1 → (f s.queue.stats).sent = s.queue.stats.sent →
      (f s.queue.stats).sendFailed = s.queue.stats.sendFailed → (s.refuse f).Conserved limits := by
    intro f hr hsent hfail
    refine ⟨hs.limits, ⟨hs.gauged.pending, hs.gauged.queued, hs.gauged.pendingWithin,
      hs.gauged.queuedWithin⟩, hs.live, ?_⟩
    have ha := hs.accounted
    simp only [Cubins.accounted, refuse, count] at ha ⊢
    omega
  rw [Cubins.capture] at h
  split at h
  · cases h
  · next hfree =>
      have hnone : s.capturing.find? thread = none := by simpa using hfree
      split_ifs at h
      · cases h
        exact ⟨hs.limits, hs.gauged, hs.live, hs.accounted⟩
      · cases h
        exact hrefuse _ (by simp only [CubinStats.refusals]; omega) rfl rfl
      · cases h
        exact hrefuse _ (by simp only [CubinStats.refusals]; omega) rfl rfl
      · split at h
        · cases h
          exact hrefuse _ (by simp only [CubinStats.refusals]; omega) rfl rfl
        · obtain ⟨hfits, h⟩ := Option.ite_none_right_eq_some.mp h
          cases h
          refine ⟨hs.limits, hs.gauged, ?_, hs.accounted⟩
          simp only [liveBytes, sum_put_of_find?_eq_none _ hnone, Capturing.bytes] at hfits ⊢
          omega

theorem Conserved.park (hs : s.Conserved limits) {thread : Nat} (h : s.park thread = some s') :
    s'.Conserved limits := by
  rw [Cubins.park] at h
  split at h
  · next e hthread =>
      have hsum := sum_of_find? Capturing.bytes hthread
      have hlive := hs.live
      have ha := hs.accounted
      simp only [liveBytes, Capturing.bytes] at hsum hlive
      split at h
      · next c hpark =>
          cases h
          obtain ⟨hg, rfl⟩ := hs.gauged.park (by omega) hpark
          refine ⟨hs.limits, hg, ?_, ?_⟩
          · simp only [liveBytes, totalLen_append, totalLen_cons, totalLen_nil]
            omega
          · simp only [Cubins.accounted, List.length_append, List.length_singleton] at ha ⊢
            omega
      · cases h
        refine ⟨hs.limits, hs.gauged, ?_, ha⟩
        simp only [liveBytes, sum_put, Capturing.bytes]
        omega
  · cases h

theorem Conserved.countPendingFull (hs : s.Conserved limits) {thread : Nat}
    (h : s.countPendingFull thread = some s') : s'.Conserved limits := by
  rw [Cubins.countPendingFull] at h
  split at h
  · next hthread =>
      cases h
      have hsum := sum_of_find? Capturing.bytes hthread
      have hlive := hs.live
      have ha := hs.accounted
      refine ⟨hs.limits, ⟨hs.gauged.pending, hs.gauged.queued, hs.gauged.pendingWithin, hs.gauged.queuedWithin⟩, ?_, ?_⟩
      · simp only [liveBytes, refuse, count, Capturing.bytes] at hsum hlive ⊢
        omega
      · simp only [Cubins.accounted, refuse, count, CubinStats.refusals] at ha ⊢
        omega
  · cases h

theorem Conserved.settled (hs : s.Conserved limits) (f : CubinStats → CubinStats) {st : Settling}
    (hbytes : st.bytes ≤ s.settling.bytes)
    (hcount : (f s.queue.stats).refusals + st.inFlight = s.queue.stats.refusals + s.settling.inFlight)
    (hsent : (f s.queue.stats).sent = s.queue.stats.sent)
    (hfail : (f s.queue.stats).sendFailed = s.queue.stats.sendFailed) :
    Conserved limits { s.count f with settling := st } := by
  have hlive := hs.live
  have ha := hs.accounted
  refine ⟨hs.limits, ⟨hs.gauged.pending, hs.gauged.queued, hs.gauged.pendingWithin, hs.gauged.queuedWithin⟩, ?_, ?_⟩
  · simp only [liveBytes, Cubins.count] at hlive ⊢
    omega
  · simp only [Cubins.accounted, Cubins.count] at ha ⊢
    omega

theorem Conserved.settle (hs : s.Conserved limits) (h : s.settle = some s') : s'.Conserved limits := by
  rw [Cubins.settle] at h
  split at h
  · next hidle =>
      cases h
      exact hs.settled id (by rw [hidle]; rfl) (by rw [hidle]; rfl) rfl rfl
  · cases h

theorem Conserved.settlePop (hs : s.Conserved limits) (h : s.settlePop = some s') : s'.Conserved limits := by
  rw [Cubins.settlePop] at h
  split at h
  · next hready =>
      cases h
      exact hs.settled id (by rw [hready]; rfl) (by rw [hready]; rfl) rfl rfl
  · next left hready =>
      have hlive := hs.live
      have ha := hs.accounted
      simp only [liveBytes, Cubins.accounted, hready, Settling.bytes, Settling.inFlight] at hlive ha
      split at h
      · cases h
        exact hs.settled id (by rw [hready]; rfl) (by rw [hready]; rfl) rfl rfl
      · next e c htake =>
          cases h
          obtain ⟨hg, es, hes, rfl⟩ := hs.gauged.takePending (by omega) htake
          rw [hes] at hlive ha
          refine ⟨hs.limits, hg, ?_, ?_⟩
          · simp only [liveBytes, totalLen_cons, Settling.bytes] at hlive ⊢
            omega
          · simp only [Cubins.accounted, List.length_cons, Settling.inFlight] at ha ⊢
            omega
  · cases h

theorem Conserved.settleCrc (hs : s.Conserved limits) {crc : Nat} (h : s.settleCrc crc = some s') :
    s'.Conserved limits := by
  rw [Cubins.settleCrc] at h
  split at h
  · next left e hpopped =>
      split_ifs at h
      · cases h
        refine hs.settled _ (Nat.zero_le _) ?_ rfl rfl
        rw [hpopped]
        simp only [CubinStats.refusals, Settling.inFlight]
        omega
      · cases h
        refine hs.settled _ (Nat.zero_le _) ?_ rfl rfl
        rw [hpopped]
        simp only [CubinStats.refusals, Settling.inFlight]
        omega
      · cases h
        exact hs.settled id (by rw [hpopped]; exact le_rfl) (by rw [hpopped]; rfl) rfl rfl
  · cases h

theorem Conserved.settleQueue (hs : s.Conserved limits) (h : s.settleQueue = some s') : s'.Conserved limits := by
  rw [Cubins.settleQueue] at h
  split at h
  · next left e hkeyed =>
      have hlive := hs.live
      have ha := hs.accounted
      simp only [liveBytes, Cubins.accounted, hkeyed, Settling.bytes, Settling.inFlight] at hlive ha
      split at h
      · next c hroom =>
          cases h
          obtain ⟨hg, rfl⟩ := hs.gauged.enqueue (by omega) hroom
          refine ⟨hs.limits, hg, ?_, ?_⟩
          · simp only [liveBytes, totalLen_append, totalLen_cons, totalLen_nil, Settling.bytes]
            omega
          · simp only [Cubins.accounted, List.length_append, List.length_singleton,
              Settling.inFlight] at ha ⊢
            omega
      · cases h
        exact hs.settled id (Nat.zero_le _) (by rw [hkeyed]; rfl) rfl rfl
  · cases h

theorem Conserved.settleCountFull (hs : s.Conserved limits) (h : s.settleCountFull = some s') :
    s'.Conserved limits := by
  rw [Cubins.settleCountFull] at h
  split at h
  · next left hfull =>
      cases h
      refine hs.settled _ (Nat.zero_le _) ?_ rfl rfl
      rw [hfull]
      simp only [CubinStats.refusals, Settling.inFlight]
      omega
  · cases h

theorem Conserved.settleIntern (hs : s.Conserved limits) (h : s.settleIntern = some s') : s'.Conserved limits := by
  rw [Cubins.settleIntern] at h
  split at h
  · next left crc hqueued =>
      cases h
      obtain ⟨known, hknown⟩ := s.queue.intern_eq crc
      rw [hknown]
      -- what is remembered is no part of the accounts
      have hs' : Conserved limits { s with queue := { s.queue with interned := known } } :=
        ⟨hs.limits, ⟨hs.gauged.pending, hs.gauged.queued, hs.gauged.pendingWithin, hs.gauged.queuedWithin⟩,
          hs.live, hs.accounted⟩
      refine hs'.settled (fun c => { c with captured := c.captured + 1 }) (Nat.zero_le _) ?_ rfl rfl
      rw [hqueued]
      rfl
  · cases h

theorem Conserved.drain (hs : s.Conserved limits) {thread : Nat} (h : s.drain thread = some s') :
    s'.Conserved limits := by
  obtain ⟨hfree, h⟩ := Option.ite_none_left_eq_some.mp h
  cases h
  have hnone : s.draining.find? thread = none := by simpa using hfree
  have hlive := hs.live
  have ha := hs.accounted
  refine ⟨hs.limits, hs.gauged, ?_, ?_⟩
  · simp only [liveBytes, sum_put_of_find?_eq_none _ hnone, Draining.bytes] at hlive ⊢
    omega
  · simp only [Cubins.accounted, sum_put_of_find?_eq_none _ hnone,
      Draining.inFlight] at ha ⊢
    omega

theorem Conserved.drainPop (hs : s.Conserved limits) {thread : Nat} (h : s.drainPop thread = some s') :
    s'.Conserved limits := by
  have hlive := hs.live
  have ha := hs.accounted
  have hdone : ∀ {left : Nat}, s.draining.find? thread = some (.ready left) →
      Conserved limits { s with draining := s.draining.del thread } := by
    intro left hready
    have hb := sum_of_find? Draining.bytes hready
    have hf := sum_of_find? Draining.inFlight hready
    refine ⟨hs.limits, hs.gauged, ?_, ?_⟩
    · simp only [liveBytes, Draining.bytes] at hlive hb ⊢
      omega
    · simp only [Cubins.accounted, Draining.inFlight] at ha hf ⊢
      omega
  rw [Cubins.drainPop] at h
  split at h
  · next hready =>
      cases h
      exact hdone hready
  · next left hready =>
      have hb := sum_of_find? Draining.bytes hready
      have hf := sum_of_find? Draining.inFlight hready
      simp only [liveBytes, Cubins.accounted, Draining.bytes, Draining.inFlight] at hlive ha hb hf
      split at h
      · cases h
        exact hdone hready
      · next e c htake =>
          cases h
          obtain ⟨hg, es, hes, rfl⟩ := hs.gauged.dequeue (by omega) htake
          rw [hes] at hlive ha
          refine ⟨hs.limits, hg, ?_, ?_⟩
          · simp only [liveBytes, totalLen_cons, sum_put, Draining.bytes] at hlive ⊢
            omega
          · simp only [Cubins.accounted, List.length_cons, sum_put,
              Draining.inFlight] at ha ⊢
            omega
  · cases h

theorem Conserved.drainOffer (hs : s.Conserved limits) {thread : Nat} {accepted : Bool}
    (h : s.drainOffer thread accepted = some s') : s'.Conserved limits := by
  rw [Cubins.drainOffer] at h
  split at h
  · next left e hoffer =>
      cases h
      have hb := sum_of_find? Draining.bytes hoffer
      have hf := sum_of_find? Draining.inFlight hoffer
      have hlive := hs.live
      have ha := hs.accounted
      refine ⟨hs.limits, ⟨hs.gauged.pending, hs.gauged.queued, hs.gauged.pendingWithin, hs.gauged.queuedWithin⟩, ?_, ?_⟩
      · simp only [liveBytes, Cubins.count, sum_put, Draining.bytes] at hlive hb ⊢
        omega
      · simp only [Cubins.accounted, Cubins.count, sum_put, Draining.inFlight] at ha hf ⊢
        cases accepted <;> simp only [CubinStats.refusals, Bool.false_eq_true, if_true, if_false] at ha ⊢ <;> omega
  · cases h

theorem Conserved.step (hs : s.Conserved limits) {a : CubinAct} (h : s.step a = some s') : s'.Conserved limits := by
  cases a with
  | capture => exact hs.capture h
  | park => exact hs.park h
  | countPendingFull => exact hs.countPendingFull h
  | settle => exact hs.settle h
  | settlePop => exact hs.settlePop h
  | settleCrc => exact hs.settleCrc h
  | settleQueue => exact hs.settleQueue h
  | settleCountFull => exact hs.settleCountFull h
  | settleIntern => exact hs.settleIntern h
  | drain => exact hs.drain h
  | drainPop => exact hs.drainPop h
  | drainOffer => exact hs.drainOffer h

/-- Conservation, in every state that any interleaving of the threads reaches: the captures of
a module that have returned are the refusals, the modules sent, those whose sending failed, and
those that are pending, queued, or in the hands of a settling or draining thread; and each byte
gauge is the sum of the sizes it describes and within its limit. -/
theorem cubins_conserved (limits : CubinQueueLimits) {as : List CubinAct} {s : Cubins}
    (h : Run (fun s a s' => s.step a = some s') { queue := { limits := limits } } as s) :
    s.returned = s.queue.stats.tooLarge + s.queue.stats.allocFailed + s.queue.stats.pendingFull +
        s.queue.stats.crcFailed + s.queue.stats.reloadSkipped + s.queue.stats.queueFull +
        s.queue.stats.sent + s.queue.stats.sendFailed + s.queue.pending.length +
        s.queue.q.length + s.settling.inFlight + s.draining.sum Draining.inFlight ∧
      s.queue.pendingBytes = totalLen s.queue.pending ∧
      s.queue.pendingBytes ≤ limits.maxPendingBytes ∧
      s.queue.queuedBytes = totalLen s.queue.q ∧
      s.queue.queuedBytes ≤ limits.maxQueuedBytes := by
  have h₀ : Conserved limits { queue := { limits := limits } } :=
    ⟨rfl, ⟨rfl, rfl, Nat.zero_le _, Nat.zero_le _⟩, Nat.two_pow_pos 64, rfl⟩
  have hs : s.Conserved limits :=
    Run.invariant (I := fun _ s => Conserved limits s) h₀ (fun _ _ _ _ _ hs ha => hs.step ha) h
  have hpending := hs.gauged.pendingWithin
  have hqueued := hs.gauged.queuedWithin
  rw [hs.limits] at hpending hqueued
  exact ⟨hs.accounted, hs.gauged.pending, hpending, hs.gauged.queued, hqueued⟩

def capturedTwice : List CubinAct :=
  [.capture 0 ⟨some [1, 2, 3]⟩ 7 100 true, .park 0, .settle, .settlePop, .settleCrc 5, .settleQueue,
    .settleIntern, .drain 0, .drainPop 0, .capture 0 ⟨some [4]⟩ 8 200 true, .park 0]

theorem cubins_conserved_offering : ∃ s : Cubins, Run (fun s a s' => s.step a = some s') {} capturedTwice s ∧
      s.draining.sum Draining.inFlight = 1 ∧ s.queue.pending.length = 1 ∧
      s.returned = s.queue.stats.tooLarge + s.queue.stats.allocFailed + s.queue.stats.pendingFull +
        s.queue.stats.crcFailed + s.queue.stats.reloadSkipped + s.queue.stats.queueFull +
        s.queue.stats.sent + s.queue.stats.sendFailed + s.queue.pending.length +
        s.queue.q.length + s.settling.inFlight + s.draining.sum Draining.inFlight := by
  obtain ⟨s, hrun, hp⟩ := @exists_run _ _ Cubins.step {} capturedTwice
    (fun s => s.draining.sum Draining.inFlight = 1 ∧ s.queue.pending.length = 1)
    (by decide +kernel)
  have hp := of_decide_eq_true hp
  exact ⟨s, hrun, hp.1, hp.2, (cubins_conserved {} hrun).1⟩

/-- While the settling thread computes a CRC the module is in no list and no counter. -/
theorem cubins_not_conserved_settling : ∃ s : Cubins, Run (fun s a s' => s.step a = some s') {}
        [.capture 0 ⟨some [1, 2, 3]⟩ 7 100 true, .park 0, .settle, .settlePop] s ∧
      s.returned + s.returnedEmpty ≠ s.queue.stats.tooLarge + s.queue.stats.allocFailed + s.queue.stats.pendingFull +
        s.queue.stats.crcFailed + s.queue.stats.reloadSkipped + s.queue.stats.queueFull +
        s.queue.stats.sent + s.queue.stats.sendFailed + s.queue.pending.length +
        s.queue.q.length + s.draining.sum Draining.inFlight := by
  obtain ⟨s, hrun, hp⟩ := @exists_run _ _ Cubins.step {}
    [.capture 0 ⟨some [1, 2, 3]⟩ 7 100 true, .park 0, .settle, .settlePop]
    (fun s => s.returned + s.returnedEmpty ≠
        s.queue.stats.tooLarge + s.queue.stats.allocFailed + s.queue.stats.pendingFull +
        s.queue.stats.crcFailed + s.queue.stats.reloadSkipped + s.queue.stats.queueFull +
        s.queue.stats.sent + s.queue.stats.sendFailed + s.queue.pending.length +
        s.queue.q.length + s.draining.sum Draining.inFlight) (by decide +kernel)
  exact ⟨s, hrun, of_decide_eq_true hp⟩

end Cubins

end PerfAgent.Shim
