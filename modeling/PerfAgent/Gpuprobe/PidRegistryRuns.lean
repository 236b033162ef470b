import PerfAgent.Gpuprobe.PidRegistry
import PerfAgent.Lib.Lists
import PerfAgent.Lib.Recency

/-!
# Ready means installed

Tables are installed once for every process that the registry calls ready, and removed when it is
evicted, provided that a process is tracked again only when the calls of its last time are through:
the release of an evicted process waits in the queue, and `enroll` does not.
-/

namespace PerfAgent.Gpuprobe

open List Function

/-! ## One process -/

inductive RegWorkerView where
  | away
  | registering
  | registered
  | unregistering
deriving DecidableEq

def RegWorker.view (w : RegWorker) (pid : UInt32) : RegWorkerView :=
  match w with
  | .idle => .away
  | .registering q => if q = pid then .registering else .away
  | .registered q => if q = pid then .registered else .away
  | .unregistering q => if q = pid then .unregistering else .away

/-- The shapes that a process can be in: its entry, its work in the queue (what is to be released), the
worker, its calls, and whether its tables are installed.  An entry that is pending may be evicted at
any time. -/
inductive RegShape : Option PidRegState → List Bool → RegWorkerView → List RegCall → Bool → Prop
  | rest : RegShape none [] .away [] false
  | ready : RegShape (some .ready) [] .away [] true
  | releaseQueued : RegShape none [true] .away [] true
  | releasing : RegShape none [] .unregistering [] true
  | queued {t} (ht : t ≠ some .ready) : RegShape t [false] .away [] false
  | queuedBehind {t} (ht : t ≠ some .ready) : RegShape t [true, false] .away [] true
  | queuedReleasing {t} (ht : t ≠ some .ready) : RegShape t [false] .unregistering [] true
  | registering {t} (ht : t ≠ some .ready) : RegShape t [] .registering [] false
  | registered {t} (ht : t ≠ some .ready) : RegShape t [] .registered [] true
  | enrollRegistering {t} (ht : t ≠ some .ready) : RegShape t [] .away [.enrollRegistering] false
  | enrollRegistered {t} (ht : t ≠ some .ready) : RegShape t [] .away [.enrollRegistered] true
  | enrollUnregistering : RegShape none [] .away [.enrollUnregistering] true
  | nowRegistering : RegShape none [] .away [.nowRegistering] false
  | nowRegistered : RegShape none [] .away [.nowRegistered] true

namespace RegShape

variable {t : Option PidRegState} {q : List Bool} {w : RegWorkerView} {c : List RegCall} {i : Bool}

/-- An entry that is ready is released when it is evicted; one that is pending is left to its calls. -/
theorem evict (h : RegShape t q w c i) : RegShape none (q ++ if t = some .ready then [true] else []) w c i := by
  cases h with
  | rest => exact .rest
  | ready => exact .releaseQueued
  | releaseQueued => exact .releaseQueued
  | releasing => exact .releasing
  | queued ht => simpa [ht] using .queued (by simp)
  | queuedBehind ht => simpa [ht] using .queuedBehind (by simp)
  | queuedReleasing ht => simpa [ht] using .queuedReleasing (by simp)
  | registering ht => simpa [ht] using .registering (by simp)
  | registered ht => simpa [ht] using .registered (by simp)
  | enrollRegistering ht => simpa [ht] using .enrollRegistering (by simp)
  | enrollRegistered ht => simpa [ht] using .enrollRegistered (by simp)
  | enrollUnregistering => exact .enrollUnregistering
  | nowRegistering => exact .nowRegistering
  | nowRegistered => exact .nowRegistered

theorem note (h : RegShape none q w c i) (hq : false ∉ q) (hregistering : w ≠ .registering)
    (hregistered : w ≠ .registered) (hc : c = []) : RegShape (some .pending) (q ++ [false]) w c i := by
  subst hc
  cases h with
  | rest => exact .queued (by simp)
  | releaseQueued => exact .queuedBehind (by simp)
  | releasing => exact .queuedReleasing (by simp)
  | queued | queuedBehind | queuedReleasing => simp at hq
  | registering => exact absurd rfl hregistering
  | registered => exact absurd rfl hregistered

theorem eq_false_of_rest (h : RegShape none [] .away [] i) : i = false := by
  cases h with
  | rest => rfl

theorem installed_iff (h : RegShape t [] .away [] i) : i = true ↔ t = some .ready := by
  cases h with
  | rest => simp
  | ready => simp

theorem installed_of_ready (h : RegShape (some .ready) q w c i) : i = true := by
  cases h with
  | ready => rfl
  | queued ht | queuedBehind ht | queuedReleasing ht => exact absurd rfl ht
  | registering ht | registered ht | enrollRegistering ht | enrollRegistered ht => exact absurd rfl ht

theorem register (h : RegShape t q .registering c i) : RegShape t q .registered c true ∧ i = false := by
  cases h with
  | registering ht => exact ⟨.registered ht, rfl⟩

theorem record (h : RegShape t q .registered c i) :
    RegShape (t.map fun _ => .ready) q (if t = none then .unregistering else .away) c i := by
  cases h with
  | registered ht =>
    cases t with
    | none => exact .releasing
    | some st => exact .ready

theorem unregister (h : RegShape t q .unregistering c i) : RegShape t q .away c false ∧ t ≠ some .ready := by
  cases h with
  | releasing => exact ⟨.rest, by simp⟩
  | queuedReleasing ht => exact ⟨.queued ht, ht⟩

theorem dequeue {release : Bool} (h : RegShape t (release :: q) .away c i) :
    RegShape t q (if release then .unregistering else .registering) c i := by
  cases h with
  | releaseQueued => exact .releasing
  | queued ht => exact .registering ht
  | queuedBehind ht => exact .queuedReleasing ht

theorem of_call {a : RegCall} (h : RegShape t q w c i) (ha : a ∈ c) : q = [] ∧ w = .away ∧ c = [a] := by
  cases h <;> simp_all

theorem callRegister (h : RegShape t q w [.enrollRegistering] i) :
    RegShape t q w [.enrollRegistered] true ∧ i = false := by
  cases h with
  | enrollRegistering ht => exact ⟨.enrollRegistered ht, rfl⟩

theorem callRecord (h : RegShape t q w [.enrollRegistered] i) :
    RegShape (t.map fun _ => .ready) q w (if t = none then [.enrollUnregistering] else []) i := by
  cases h with
  | enrollRegistered ht =>
    cases t with
    | none => exact .enrollUnregistering
    | some st => exact .ready

theorem callUnregister (h : RegShape t q w [.enrollUnregistering] i) : RegShape t q w [] false ∧ t ≠ some .ready := by
  cases h with
  | enrollUnregistering => exact ⟨.rest, by simp⟩

theorem nowRegister (h : RegShape t q w [.nowRegistering] i) : RegShape t q w [.nowRegistered] true ∧ i = false := by
  cases h with
  | nowRegistering => exact ⟨.nowRegistered, rfl⟩

theorem nowRecord (h : RegShape t q w [.nowRegistered] i) : RegShape (some .ready) q w [] i ∧ t = none := by
  cases h with
  | nowRegistered => exact ⟨.ready, rfl⟩

end RegShape

/-- The calls for `q` among all. -/
def callsFor (calls : List (UInt32 × RegCall)) (q : UInt32) : List RegCall :=
  (calls.filter fun c => c.1 = q).map Prod.snd

variable {s' : PidRegistry} {p₀ : UInt32}

/-- The work for `q` in a queue. -/
def workOf (work : List PidWork) (q : UInt32) : List Bool := (work.filter fun w => w.pid = q).map PidWork.release

namespace PidRegistry

variable (s : PidRegistry)

def tracked (pid : UInt32) : Option PidRegState := (s.byPID pid).map PidRegEntry.state

def queueOf (pid : UInt32) : List Bool := workOf s.work pid

def callsOf (pid : UInt32) : List RegCall := callsFor s.calls pid

def Shaped (pid : UInt32) : Prop :=
  RegShape (s.tracked pid) (s.queueOf pid) (s.worker.view pid) (s.callsOf pid) (s.installed pid)

/-- There is room for some entries, and the map and the list have the same ones. -/
structure Listed : Prop where
  capacity_pos : 0 < s.capacity
  nodup : s.lru.Nodup
  mem_iff : ∀ p, p ∈ s.lru ↔ s.byPID p ≠ none

/-- Everything is as it should be, but for the process `p₀`, which was just put in front. -/
structure OkBut (p₀ : UInt32) : Prop extends s.Listed where
  shaped : ∀ p, p ≠ p₀ → s.Shaped p
  promised : ∀ p, p ≠ p₀ → s.promised p = true → s.tracked p = some .ready
  once : s.registeredTwice = false
  front : s.lru.head? = some p₀

/-- A step that has nothing to do with `p₀`. -/
structure SameFor (p₀ : UInt32) (s s' : PidRegistry) : Prop where
  byPID : s'.byPID p₀ = s.byPID p₀
  queueOf : s'.queueOf p₀ = s.queueOf p₀
  promised : s'.promised p₀ = s.promised p₀
  worker : s'.worker = s.worker
  calls : s'.calls = s.calls
  installed : s'.installed = s.installed
  capacity : s'.capacity = s.capacity

variable {s}

theorem SameFor.refl (p₀ : UInt32) (s : PidRegistry) : SameFor p₀ s s := ⟨rfl, rfl, rfl, rfl, rfl, rfl, rfl⟩

theorem SameFor.trans {p₀ : UInt32} {s s' s'' : PidRegistry} (h : SameFor p₀ s s') (h' : SameFor p₀ s' s'') :
    SameFor p₀ s s'' where
  byPID := h'.byPID.trans h.byPID
  queueOf := h'.queueOf.trans h.queueOf
  promised := h'.promised.trans h.promised
  worker := h'.worker.trans h.worker
  calls := h'.calls.trans h.calls
  installed := h'.installed.trans h.installed
  capacity := h'.capacity.trans h.capacity

theorem SameFor.shaped_iff {s : PidRegistry} (h : SameFor p₀ s s') : s'.Shaped p₀ ↔ s.Shaped p₀ := by
  unfold Shaped tracked callsOf
  rw [h.byPID, h.queueOf, h.worker, h.calls, h.installed]

/-! ## Eviction -/

theorem rememberEnrolledLocked_eq (s : PidRegistry) (pid : UInt32) :
    ∃ marks dropped, s.rememberEnrolledLocked pid =
      { s with wasEnrolled := marks, enrolledMarksDropped := dropped } := by
  unfold rememberEnrolledLocked
  split
  · exact ⟨s.wasEnrolled, s.enrolledMarksDropped, rfl⟩
  · exact ⟨_, _, rfl⟩

theorem dropEntry_eq (s : PidRegistry) (pid : UInt32) (e : PidRegEntry) :
    ∃ marks dropped evicted enrolledEvicted, s.dropEntry pid e = { s with
      byPID := update s.byPID pid none
      promised := update s.promised pid false
      work := s.work ++ if e.state = .ready then [{ pid := pid, release := true }] else []
      wasEnrolled := marks, enrolledMarksDropped := dropped, evicted := evicted
      enrolledEvicted := enrolledEvicted } := by
  unfold dropEntry
  dsimp only
  by_cases henrolled : e.enrolled = true
  · obtain ⟨marks, dropped, heq⟩ := rememberEnrolledLocked_eq
      { s with byPID := update s.byPID pid none, promised := update s.promised pid false,
               evicted := s.evicted + 1, enrolledEvicted := s.enrolledEvicted + 1 } pid
    rw [if_pos henrolled, heq]
    refine ⟨marks, dropped, s.evicted + 1, s.enrolledEvicted + 1, ?_⟩
    split
    · rfl
    · rw [append_nil]
  · rw [if_neg henrolled]
    refine ⟨s.wasEnrolled, s.enrolledMarksDropped, s.evicted + 1, s.enrolledEvicted, ?_⟩
    split
    · rfl
    · rw [append_nil]

theorem workOf_append (work : List PidWork) (w : PidWork) (q : UInt32) :
    workOf (work ++ [w]) q = workOf work q ++ if w.pid = q then [w.release] else [] := by
  unfold workOf
  rw [filter_append, map_append, filter_singleton]
  by_cases hw : w.pid = q
  · simp [hw]
  · simp [hw]

theorem workOf_append_release (work : List PidWork) (p q : UInt32) (b : Prop) [Decidable b] :
    workOf (work ++ if b then [{ pid := p, release := true }] else []) q =
      workOf work q ++ if p = q ∧ b then [true] else [] := by
  by_cases hb : b
  · rw [if_pos hb, workOf_append]
    simp [hb]
  · simp [hb]

theorem evictBack_eq {p : UInt32} {e : PidRegEntry} (hp : s.lru.getLast? = some p) (he : s.byPID p = some e) :
    s.evictBack = { s with lru := s.lru.dropLast }.dropEntry p e := by
  unfold PidRegistry.evictBack
  simp only [hp, he]

theorem OkBut.evictBack {p₀ : UInt32} (h : s.OkBut p₀) (hlong : 2 ≤ s.lru.length) :
    s.evictBack.OkBut p₀ ∧ SameFor p₀ s s.evictBack ∧ s.evictBack.lru = s.lru.dropLast := by
  obtain ⟨p, hp, hsplit, hnotin, hfront⟩ := exists_back hlong h.nodup h.front
  have hp₀ : p ≠ p₀ := by
    rintro rfl
    exact hnotin (mem_of_head? hfront)
  have hmem : s.byPID p ≠ none := (h.mem_iff p).mp (by rw [hsplit]; simp)
  obtain ⟨e, he⟩ := Option.ne_none_iff_exists'.mp hmem
  obtain ⟨marks, dropped, evicted, enrolledEvicted, hdrop⟩ := dropEntry_eq { s with lru := s.lru.dropLast } p e
  rw [evictBack_eq hp he, hdrop]
  have hqueueOf : ∀ q, workOf (s.work ++ if e.state = .ready then [{ pid := p, release := true }] else []) q =
      s.queueOf q ++ if p = q ∧ e.state = .ready then [true] else [] :=
    fun q => workOf_append_release s.work p q (e.state = .ready)
  refine ⟨⟨⟨h.capacity_pos, (dropLast_sublist _).nodup h.nodup, fun q => ?_⟩, fun q hq => ?_,
    fun q hq hpromised => ?_, h.once, hfront⟩, ⟨?_, ?_, ?_, rfl, rfl, rfl, rfl⟩, rfl⟩
  · have hq := h.mem_iff q
    by_cases hqp : q = p
    · subst hqp
      simp [hnotin]
    · dsimp only
      rw [update_of_ne hqp, ← hq, hsplit]
      simp [hqp]
  · have hshape := h.shaped q hq
    show RegShape ((update s.byPID p none q).map PidRegEntry.state) (workOf _ q) (s.worker.view q)
      (s.callsOf q) (s.installed q)
    rw [hqueueOf q]
    by_cases hqp : q = p
    · subst hqp
      have htracked : s.tracked q = some e.state := congrArg (Option.map PidRegEntry.state) he
      have hev := RegShape.evict hshape
      rw [htracked] at hev
      rw [update_self]
      simpa using hev
    · rw [update_of_ne hqp, if_neg (fun hpq => hqp hpq.1.symm), append_nil]
      exact hshape
  · dsimp only at hpromised
    by_cases hqp : q = p
    · subst hqp
      rw [update_self] at hpromised
      cases hpromised
    · rw [update_of_ne hqp] at hpromised
      unfold tracked
      dsimp only
      rw [update_of_ne hqp]
      exact h.promised q hq hpromised
  · exact update_of_ne (Ne.symm hp₀) _ _
  · exact (hqueueOf p₀).trans (by rw [if_neg (fun hpq => hp₀ hpq.1), append_nil])
  · exact update_of_ne (Ne.symm hp₀) _ _

theorem OkBut.evictTurns {p₀ : UInt32} (turns : Nat) (h : s.OkBut p₀) :
    (PidRegistry.evictTurns turns s).OkBut p₀ ∧ SameFor p₀ s (PidRegistry.evictTurns turns s) ∧
      (s.lru.length ≤ turns + s.capacity → (PidRegistry.evictTurns turns s).lru.length ≤ s.capacity) := by
  induction turns generalizing s with
  | zero =>
    refine ⟨h, SameFor.refl p₀ s, fun hle => ?_⟩
    exact (Nat.zero_add s.capacity) ▸ hle
  | succ turns ih =>
    rw [PidRegistry.evictTurns]
    split
    · next hlong =>
        obtain ⟨hback, hsame, hlru⟩ := h.evictBack (Nat.lt_of_le_of_lt h.capacity_pos hlong)
        obtain ⟨hrest, hsame', hlen⟩ := ih hback
        refine ⟨hrest, hsame.trans hsame', fun hle => ?_⟩
        rw [hlru, hsame.capacity, length_dropLast] at hlen
        exact hlen (by omega)
    · next hshort => exact ⟨h, SameFor.refl p₀ s, fun _ => Nat.not_lt.mp hshort⟩

theorem OkBut.evictLocked {p₀ : UInt32} (h : s.OkBut p₀) :
    s.evictLocked.OkBut p₀ ∧ SameFor p₀ s s.evictLocked ∧ s.evictLocked.lru.length ≤ s.capacity := by
  obtain ⟨hok, hsame, hlen⟩ := h.evictTurns s.lru.length
  exact ⟨hok, hsame, hlen (Nat.le_add_right _ _)⟩

/-! ## The steps -/

structure Ok (s : PidRegistry) : Prop extends s.Listed where
  shaped : ∀ p, s.Shaped p
  promised : ∀ p, s.promised p = true → s.tracked p = some .ready
  once : s.registeredTwice = false
  length_le : s.lru.length ≤ s.capacity

theorem OkBut.ok (h : s.OkBut p₀) (hlen : s.lru.length ≤ s.capacity) (hshaped : s.Shaped p₀)
    (hpromised : s.promised p₀ = true → s.tracked p₀ = some .ready) : s.Ok where
  toListed := h.toListed
  shaped := by
    intro p
    by_cases hp : p = p₀
    · exact hp ▸ hshaped
    · exact h.shaped p hp
  promised := by
    intro p
    by_cases hp : p = p₀
    · exact hp ▸ hpromised
    · exact h.promised p hp
  once := h.once
  length_le := hlen

theorem Ok.addEntry (h : s.Ok) {p : UInt32} (hp : s.byPID p = none) (e : PidRegEntry) : (s.addEntry p e).OkBut p where
  capacity_pos := h.capacity_pos
  nodup := nodup_cons.mpr ⟨fun hin => (h.mem_iff p).mp hin hp, h.nodup⟩
  mem_iff := by
    intro q
    show q ∈ p :: s.lru ↔ update s.byPID p (some e) q ≠ none
    rw [mem_cons, h.mem_iff q]
    by_cases hq : q = p
    · subst hq
      simp
    · rw [update_of_ne hq]
      simp [hq]
  shaped := by
    intro q hq
    have hshape := h.shaped q
    unfold Shaped tracked at hshape ⊢
    rw [show (s.addEntry p e).byPID q = s.byPID q from update_of_ne hq _ _]
    exact hshape
  promised := by
    intro q hq hpromised
    unfold tracked
    rw [show (s.addEntry p e).byPID q = s.byPID q from update_of_ne hq _ _]
    exact h.promised q hpromised
  once := h.once
  front := rfl

/-- A step that is about `p` alone, and neither adds nor removes its entry. -/
structure SameBut (p : UInt32) (s s' : PidRegistry) : Prop where
  lru : s'.lru = s.lru
  capacity : s'.capacity = s.capacity
  mem : s'.byPID p ≠ none ↔ s.byPID p ≠ none
  byPID : ∀ q, q ≠ p → s'.byPID q = s.byPID q
  queueOf : ∀ q, q ≠ p → s'.queueOf q = s.queueOf q
  view : ∀ q, q ≠ p → s'.worker.view q = s.worker.view q
  callsOf : ∀ q, q ≠ p → s'.callsOf q = s.callsOf q
  installed : ∀ q, q ≠ p → s'.installed q = s.installed q
  promised : ∀ q, q ≠ p → s'.promised q = s.promised q
  registeredTwice : s'.registeredTwice = s.registeredTwice

theorem SameBut.refl (p : UInt32) (s : PidRegistry) : SameBut p s s :=
  ⟨rfl, rfl, Iff.rfl, fun _ _ => rfl, fun _ _ => rfl, fun _ _ => rfl, fun _ _ => rfl, fun _ _ => rfl, fun _ _ => rfl,
    rfl⟩

theorem SameBut.listed {p : UInt32} (hs : SameBut p s s') (h : s.Listed) : s'.Listed where
  capacity_pos := hs.capacity ▸ h.capacity_pos
  nodup := hs.lru ▸ h.nodup
  mem_iff := by
    intro q
    rw [hs.lru, h.mem_iff q]
    by_cases hq : q = p
    · subst hq
      exact hs.mem.symm
    · rw [hs.byPID q hq]

theorem SameBut.shaped {p q : UInt32} (hs : SameBut p s s') (hq : q ≠ p) (h : s.Shaped q) : s'.Shaped q := by
  unfold Shaped tracked at h ⊢
  rw [hs.byPID q hq, hs.queueOf q hq, hs.view q hq, hs.callsOf q hq, hs.installed q hq]
  exact h

theorem SameBut.promised_ready {p q : UInt32} (hs : SameBut p s s') (hq : q ≠ p)
    (h : s.promised q = true → s.tracked q = some .ready) (hpromised : s'.promised q = true) :
    s'.tracked q = some .ready := by
  unfold tracked
  rw [hs.byPID q hq]
  exact h (hs.promised q hq ▸ hpromised)

theorem OkBut.of_sameBut {p : UInt32} (h : s.OkBut p) (hs : SameBut p s s') : s'.OkBut p where
  toListed := hs.listed h.toListed
  shaped := fun q hq => hs.shaped hq (h.shaped q hq)
  promised := fun q hq => hs.promised_ready hq (h.promised q hq)
  once := hs.registeredTwice.trans h.once
  front := hs.lru ▸ h.front

theorem Ok.of_sameBut {p : UInt32} (h : s.Ok) (hs : SameBut p s s') (hshaped : s'.Shaped p)
    (hpromised : s'.promised p = true → s'.tracked p = some .ready) : s'.Ok where
  toListed := hs.listed h.toListed
  shaped := by
    intro q
    by_cases hq : q = p
    · exact hq ▸ hshaped
    · exact hs.shaped hq (h.shaped q)
  promised := by
    intro q
    by_cases hq : q = p
    · exact hq ▸ hpromised
    · exact hs.promised_ready hq (h.promised q)
  once := hs.registeredTwice.trans h.once
  length_le := by
    rw [hs.lru, hs.capacity]
    exact h.length_le

theorem Ok.moveToFront (h : s.Ok) {p : UInt32} (hp : s.byPID p ≠ none) : (s.moveToFront p).Ok := by
  have hin : p ∈ s.lru := (h.mem_iff p).mpr hp
  have hperm : (p :: s.lru.erase p).Perm s.lru := (perm_cons_erase hin).symm
  refine ⟨⟨h.capacity_pos, hperm.nodup_iff.mpr h.nodup, fun q => ?_⟩, h.shaped, h.promised, h.once, ?_⟩
  · exact hperm.mem_iff.trans (h.mem_iff q)
  · exact Nat.le_trans (Nat.le_of_eq hperm.length_eq) h.length_le

theorem sameBut_enqueue (s : PidRegistry) (p : UInt32) (release : Bool) :
    SameBut p s (s.enqueueLocked { pid := p, release := release }) := by
  refine { SameBut.refl p s with queueOf := fun q hq => ?_ }
  refine (workOf_append s.work _ q).trans ?_
  rw [if_neg (Ne.symm hq), append_nil]
  rfl

theorem Ok.note (h : s.Ok) {p : UInt32}
    (hnew : s.byPID p = none → false ∉ s.queueOf p ∧ s.worker.view p ≠ .registering ∧
      s.worker.view p ≠ .registered ∧ s.callsOf p = []) : (s.note p).Ok := by
  unfold PidRegistry.note
  split
  · exact h
  · cases hp : s.byPID p with
    | some e => exact h.moveToFront (by rw [hp]; simp)
    | none =>
      obtain ⟨hqueue, hregistering, hregistered, hcalls⟩ := hnew hp
      obtain ⟨hok, hsame, hlen⟩ := (h.addEntry hp { state := .pending, enrolled := p ∈ s.wasEnrolled }).evictLocked
      refine (hok.of_sameBut (sameBut_enqueue _ p false)).ok (hsame.capacity.symm ▸ hlen) ?_ fun hpromised => ?_
      · have hshape := h.shaped p
        unfold Shaped tracked at hshape
        rw [hp] at hshape
        have hnote := RegShape.note hshape hqueue hregistering hregistered hcalls
        unfold Shaped tracked PidRegistry.queueOf PidRegistry.callsOf enqueueLocked
        dsimp only
        rw [workOf_append, if_pos rfl, hsame.byPID, hsame.worker, hsame.calls, hsame.installed,
          show workOf _ p = _ from hsame.queueOf]
        rw [show (s.addEntry p _).byPID p = _ from update_self ..]
        exact hnote
      · have hold : s.promised p = true := (hsame.promised.symm.trans hpromised :)
        have hready := h.promised p hold
        unfold tracked at hready
        rw [hp] at hready
        cases hready

theorem callsFor_append (calls : List (UInt32 × RegCall)) (p q : UInt32) (c : RegCall) :
    callsFor (calls ++ [(p, c)]) q = callsFor calls q ++ if p = q then [c] else [] := by
  unfold callsFor
  rw [filter_append, map_append, filter_singleton]
  by_cases hp : p = q
  · simp [hp]
  · simp [hp]

theorem Ok.promised_eq_false (h : s.Ok) {p : UInt32} (hp : s.byPID p = none) : s.promised p = false := by
  cases hpromised : s.promised p with
  | false => rfl
  | true =>
    have hready := h.promised p hpromised
    unfold tracked at hready
    rw [hp] at hready
    cases hready

structure Still (s : PidRegistry) (p : UInt32) : Prop where
  untracked : s.byPID p = none
  queueOf : s.queueOf p = []
  worker : s.worker.view p = .away
  callsOf : s.callsOf p = []

theorem Ok.installed_of_still (h : s.Ok) {p : UInt32} (hstill : s.Still p) : s.installed p = false := by
  have hshape := h.shaped p
  unfold Shaped tracked at hshape
  rw [hstill.untracked, hstill.queueOf, hstill.worker, hstill.callsOf] at hshape
  exact RegShape.eq_false_of_rest hshape

theorem Still.enrollRegistering {p : UInt32} (h : s.Still p) (hinstalled : s.installed p = false) :
    RegShape (some .pending) (s.queueOf p) (s.worker.view p) (callsFor s.calls p ++ [.enrollRegistering])
      (s.installed p) := by
  rw [h.queueOf, h.worker, show callsFor s.calls p = [] from h.callsOf, hinstalled]
  exact .enrollRegistering (by simp)

theorem Ok.setEnrolled (h : s.Ok) {p : UInt32} {e : PidRegEntry} (hp : s.byPID p = some e) :
    Ok { s with byPID := update s.byPID p (some { e with enrolled := true }) } := by
  have htracked : ∀ q, Option.map PidRegEntry.state
      (update s.byPID p (some { e with enrolled := true }) q) = s.tracked q := by
    intro q
    unfold tracked
    by_cases hq : q = p
    · subst hq
      rw [update_self, hp]
      rfl
    · rw [update_of_ne hq]
  refine ⟨⟨h.capacity_pos, h.nodup, fun q => ?_⟩, fun q => ?_, fun q hq => ?_, h.once, h.length_le⟩
  · rw [h.mem_iff q]
    dsimp only
    by_cases hq : q = p
    · subst hq
      rw [update_self, hp]
      simp
    · rw [update_of_ne hq]
  · have hshape := h.shaped q
    show RegShape (Option.map PidRegEntry.state (update s.byPID p (some { e with enrolled := true }) q))
      (s.queueOf q) (s.worker.view q) (s.callsOf q) (s.installed q)
    rw [htracked q]
    exact hshape
  · exact (htracked q).trans (h.promised q hq)

theorem Ok.promise (h : s.Ok) {p : UInt32} (hready : s.tracked p = some .ready) :
    Ok { s with promised := update s.promised p true } := by
  refine ⟨⟨h.capacity_pos, h.nodup, h.mem_iff⟩, h.shaped, fun q hq => ?_, h.once, h.length_le⟩
  by_cases hqp : q = p
  · exact hqp ▸ hready
  · dsimp only at hq
    rw [update_of_ne hqp] at hq
    exact h.promised q hq

theorem OkBut.withMarks {p : UInt32} (h : s.OkBut p) (pid : UInt32) : (s.rememberEnrolledLocked pid).OkBut p := by
  obtain ⟨marks, dropped, heq⟩ := rememberEnrolledLocked_eq s pid
  rw [heq]
  exact ⟨⟨h.capacity_pos, h.nodup, h.mem_iff⟩, h.shaped, h.promised, h.once, h.front⟩

theorem sameFor_rememberEnrolledLocked (p pid : UInt32) : SameFor p s (s.rememberEnrolledLocked pid) := by
  obtain ⟨marks, dropped, heq⟩ := rememberEnrolledLocked_eq s pid
  rw [heq]
  exact ⟨rfl, rfl, rfl, rfl, rfl, rfl, rfl⟩

theorem sameBut_addCall (s : PidRegistry) (p : UInt32) (c : RegCall) :
    SameBut p s { s with calls := s.calls ++ [(p, c)] } := by
  refine { SameBut.refl p s with callsOf := fun q hq => ?_ }
  refine (callsFor_append s.calls p q c).trans ?_
  rw [if_neg (Ne.symm hq), append_nil]
  rfl

theorem Ok.enroll (h : s.Ok) {p : UInt32} (hnew : s.byPID p = none → s.Still p) : (s.enroll p).Ok := by
  unfold PidRegistry.enroll
  split
  · exact h
  · cases hp : s.byPID p with
    | some e =>
      have hmarked := h.setEnrolled hp
      have hself : update s.byPID p (some { e with enrolled := true }) p ≠ none := by
        rw [update_self]
        simp
      have hmoved := hmarked.moveToFront hself
      dsimp only
      split
      · next hready =>
          refine hmoved.promise ?_
          show Option.map PidRegEntry.state (update s.byPID p (some { e with enrolled := true }) p) = _
          rw [update_self]
          exact congrArg some hready
      · exact hmoved
    | none =>
      have hstill := hnew hp
      generalize hs₁ : s.addEntry p { state := .pending, enrolled := true } = s₁
      have hadd : (s₁.rememberEnrolledLocked p).OkBut p := by
        rw [← hs₁]
        exact (h.addEntry hp _).withMarks p
      have hmarks : SameFor p s₁ (s₁.rememberEnrolledLocked p) := sameFor_rememberEnrolledLocked p p
      generalize (s₁.rememberEnrolledLocked p) = s₂ at hadd hmarks
      obtain ⟨hok, hsame, hlen⟩ := hadd.evictLocked
      have hall := hmarks.trans hsame
      have hcall := hok.of_sameBut (sameBut_addCall _ p .enrollRegistering)
      refine hcall.ok (hsame.capacity.symm ▸ hlen) ?_ fun hpromised => ?_
      · have hshape := hstill.enrollRegistering (h.installed_of_still hstill)
        show RegShape (s₂.evictLocked.tracked p) (s₂.evictLocked.queueOf p) (s₂.evictLocked.worker.view p)
          (callsFor (s₂.evictLocked.calls ++ [(p, .enrollRegistering)]) p) (s₂.evictLocked.installed p)
        unfold tracked
        rw [callsFor_append, if_pos rfl, hall.byPID, hall.queueOf, hall.worker, hall.calls, hall.installed, ← hs₁]
        rw [show (s.addEntry p _).byPID p = _ from update_self ..]
        exact hshape
      · have hold : s.promised p = true := by
          rw [← hs₁] at hall
          exact hall.promised.symm.trans hpromised
        rw [h.promised_eq_false hp] at hold
        cases hold

theorem Ok.registerNow (h : s.Ok) {p : UInt32} (hstill : s.Still p) : (s.registerNow p).Ok := by
  unfold PidRegistry.registerNow
  split
  · exact h
  · refine h.of_sameBut (sameBut_addCall s p .nowRegistering) ?_ (h.promised p)
    show RegShape (s.tracked p) (s.queueOf p) (s.worker.view p) (callsFor (_ ++ _) p) (s.installed p)
    rw [callsFor_append, if_pos rfl, show callsFor s.calls p = _ from hstill.callsOf, hstill.queueOf, hstill.worker,
      h.installed_of_still hstill]
    unfold tracked
    rw [hstill.untracked]
    exact .nowRegistering

/-! ### Calls -/

theorem callsFor_split (l₁ l₂ : List (UInt32 × RegCall)) (p q : UInt32) (c : RegCall) :
    callsFor (l₁ ++ (p, c) :: l₂) q = callsFor l₁ q ++ (if p = q then [c] else []) ++ callsFor l₂ q := by
  rw [append_cons, callsFor, filter_append, map_append]
  exact congrArg (· ++ callsFor l₂ q) (callsFor_append l₁ p q c)

/-- What a step of the `i`-th call, which is for `p`, does to the calls. -/
structure CallStep (s : PidRegistry) (i : Nat) (p : UInt32) : Prop where
  set_self : ∀ c, callsFor (s.calls.set i (p, c)) p = [c]
  set_ne : ∀ c q, q ≠ p → callsFor (s.calls.set i (p, c)) q = s.callsOf q
  erase_self : callsFor (s.calls.eraseIdx i) p = []
  erase_ne : ∀ q, q ≠ p → callsFor (s.calls.eraseIdx i) q = s.callsOf q

theorem Ok.callStep (h : s.Ok) {i : Nat} {p : UInt32} {c : RegCall} (hi : s.calls[i]? = some (p, c)) :
    s.callsOf p = [c] ∧ CallStep s i p := by
  obtain ⟨l₁, l₂, hl, hset, herase⟩ := set_split hi
  have hcalls : ∀ q, s.callsOf q = callsFor l₁ q ++ (if p = q then [c] else []) ++ callsFor l₂ q := by
    intro q
    rw [← callsFor_split, ← hl]
    rfl
  have hmem : c ∈ s.callsOf p := by
    rw [hcalls p, if_pos rfl]
    simp
  obtain ⟨-, -, hone⟩ := RegShape.of_call (h.shaped p) hmem
  have hlen := congrArg List.length (hone.symm.trans (hcalls p))
  rw [if_pos rfl] at hlen
  simp only [List.length_append, length_cons, length_nil] at hlen
  have h₁ : callsFor l₁ p = [] := eq_nil_of_length_eq_zero (by omega)
  have h₂ : callsFor l₂ p = [] := eq_nil_of_length_eq_zero (by omega)
  have hother : ∀ q, q ≠ p → s.callsOf q = callsFor l₁ q ++ callsFor l₂ q := by
    intro q hq
    rw [hcalls q, if_neg (Ne.symm hq), append_nil]
  have happend : ∀ q, callsFor (l₁ ++ l₂) q = callsFor l₁ q ++ callsFor l₂ q := by
    intro q
    rw [callsFor, filter_append, map_append]
    rfl
  refine ⟨hone, fun c' => ?_, fun c' q hq => ?_, ?_, fun q hq => ?_⟩
  · rw [hset, callsFor_split, h₁, h₂, if_pos rfl]
    rfl
  · rw [hset, callsFor_split, if_neg (Ne.symm hq), append_nil, hother q hq]
  · rw [herase, happend, h₁, h₂]
    rfl
  · rw [herase, happend, hother q hq]

theorem sameBut_register {p : UInt32} (hinstalled : s.installed p = false) : SameBut p s (s.register p) := by
  refine { SameBut.refl p s with installed := fun _ hq => update_of_ne hq _ _, registeredTwice := ?_ }
  show (s.registeredTwice || s.installed p) = s.registeredTwice
  rw [hinstalled, Bool.or_false]

theorem sameBut_unregister (s : PidRegistry) (p : UInt32) : SameBut p s (s.unregister p) :=
  { SameBut.refl p s with installed := fun _ hq => update_of_ne hq _ _ }

theorem sameBut_setReady {p : UInt32} {e : PidRegEntry} (hp : s.byPID p = some e) : SameBut p s (s.setReady p e) := by
  refine { SameBut.refl p s with mem := ?_, byPID := fun _ hq => update_of_ne hq _ _ }
  show update s.byPID p (some { e with state := .ready }) p ≠ none ↔ s.byPID p ≠ none
  rw [update_self, hp]
  simp

theorem sameBut_registered (s : PidRegistry) (p : UInt32) (n : ℕ) : SameBut p s { s with registered := n } :=
  { SameBut.refl p s with lru := rfl }

theorem SameBut.trans {p : UInt32} {s s' s'' : PidRegistry} (h : SameBut p s s') (h' : SameBut p s' s'') :
    SameBut p s s'' where
  lru := h'.lru.trans h.lru
  capacity := h'.capacity.trans h.capacity
  mem := h'.mem.trans h.mem
  byPID := fun q hq => (h'.byPID q hq).trans (h.byPID q hq)
  queueOf := fun q hq => (h'.queueOf q hq).trans (h.queueOf q hq)
  view := fun q hq => (h'.view q hq).trans (h.view q hq)
  callsOf := fun q hq => (h'.callsOf q hq).trans (h.callsOf q hq)
  installed := fun q hq => (h'.installed q hq).trans (h.installed q hq)
  promised := fun q hq => (h'.promised q hq).trans (h.promised q hq)
  registeredTwice := h'.registeredTwice.trans h.registeredTwice

theorem CallStep.sameBut_set {i : Nat} {p : UInt32} (h : CallStep s i p) (c : RegCall) :
    SameBut p s { s with calls := s.calls.set i (p, c) } :=
  { SameBut.refl p s with callsOf := h.set_ne c }

theorem CallStep.sameBut_erase {i : Nat} {p : UInt32} (h : CallStep s i p) :
    SameBut p s { s with calls := s.calls.eraseIdx i } :=
  { SameBut.refl p s with callsOf := h.erase_ne }

theorem Ok.callRegister (h : s.Ok) {i : Nat} {p : UInt32} {c c' : RegCall} (hi : s.calls[i]? = some (p, c))
    (hregister : ∀ {t q w b}, RegShape t q w [c] b → RegShape t q w [c'] true ∧ b = false) :
    Ok { s.register p with calls := s.calls.set i (p, c') } := by
  obtain ⟨hone, hstep⟩ := h.callStep hi
  have hshape := h.shaped p
  unfold Shaped at hshape
  rw [hone] at hshape
  obtain ⟨hshape', hinstalled⟩ := hregister hshape
  refine h.of_sameBut ((hstep.sameBut_set c').trans (sameBut_register hinstalled)) ?_ (h.promised p)
  show RegShape (s.tracked p) (s.queueOf p) (s.worker.view p) (callsFor (s.calls.set i (p, c')) p)
    (update s.installed p true p)
  rw [hstep.set_self, update_self]
  exact hshape'

theorem Ok.callEnrollRegistered (h : s.Ok) {i : Nat} {p : UInt32} (hi : s.calls[i]? = some (p, .enrollRegistered))
    {e : PidRegEntry} (hp : s.byPID p = some e) :
    Ok { s.setReady p e with calls := s.calls.eraseIdx i, promised := update s.promised p true } := by
  obtain ⟨hone, hstep⟩ := h.callStep hi
  have hshape := h.shaped p
  unfold Shaped tracked at hshape
  rw [hone, hp] at hshape
  have htracked : Option.map PidRegEntry.state (update s.byPID p (some { e with state := .ready }) p) =
      some .ready := by
    rw [update_self]
    rfl
  have hsame := (hstep.sameBut_erase.trans (sameBut_setReady (s := { s with calls := s.calls.eraseIdx i }) hp))
  have hpromised : SameBut p ({ s with calls := s.calls.eraseIdx i }.setReady p e)
      { s.setReady p e with calls := s.calls.eraseIdx i, promised := update s.promised p true } :=
    { SameBut.refl p _ with promised := fun _ hq => update_of_ne hq _ _ }
  refine h.of_sameBut (hsame.trans hpromised) ?_ fun _ => htracked
  show RegShape (Option.map PidRegEntry.state (update s.byPID p (some { e with state := .ready }) p))
    (s.queueOf p) (s.worker.view p) (callsFor (s.calls.eraseIdx i) p) (s.installed p)
  rw [htracked, hstep.erase_self]
  exact RegShape.callRecord hshape

theorem Ok.callEvictedMidFlight (h : s.Ok) {i : Nat} {p : UInt32} (hi : s.calls[i]? = some (p, .enrollRegistered))
    (hp : s.byPID p = none) :
    Ok { s with calls := s.calls.set i (p, .enrollUnregistering), registered := s.registered + 1 } := by
  obtain ⟨hone, hstep⟩ := h.callStep hi
  have hshape := h.shaped p
  unfold Shaped tracked at hshape
  rw [hone, hp] at hshape
  refine h.of_sameBut ((hstep.sameBut_set .enrollUnregistering).trans (sameBut_registered _ p _)) ?_ (h.promised p)
  show RegShape (Option.map PidRegEntry.state (s.byPID p)) (s.queueOf p) (s.worker.view p)
    (callsFor (s.calls.set i (p, .enrollUnregistering)) p) (s.installed p)
  rw [hstep.set_self, hp]
  exact RegShape.callRecord hshape

theorem Ok.callUnregister (h : s.Ok) {i : Nat} {p : UInt32} (hi : s.calls[i]? = some (p, .enrollUnregistering)) :
    Ok { s.unregister p with calls := s.calls.eraseIdx i } := by
  obtain ⟨hone, hstep⟩ := h.callStep hi
  have hshape := h.shaped p
  unfold Shaped at hshape
  rw [hone] at hshape
  obtain ⟨hshape', -⟩ := RegShape.callUnregister hshape
  refine h.of_sameBut (hstep.sameBut_erase.trans (sameBut_unregister _ p)) ?_ (h.promised p)
  show RegShape (s.tracked p) (s.queueOf p) (s.worker.view p) (callsFor (s.calls.eraseIdx i) p)
    (update s.installed p false p)
  rw [hstep.erase_self, update_self]
  exact hshape'

theorem Ok.callNowRegistered (h : s.Ok) {i : Nat} {p : UInt32}
    (hi : s.calls[i]? = some (p, .nowRegistered)) {e : PidRegEntry} :
    (({ s with calls := s.calls.eraseIdx i }.addEntry p e).setReady p e).evictLocked.Ok ∧ s.byPID p = none := by
  obtain ⟨hone, hstep⟩ := h.callStep hi
  have hshape := h.shaped p
  unfold Shaped at hshape
  rw [hone] at hshape
  obtain ⟨hshape', htracked⟩ := RegShape.nowRecord hshape
  have hp : s.byPID p = none := Option.map_eq_none_iff.mp htracked
  have hadd := h.addEntry hp e
  have hself : (s.addEntry p e).byPID p = some e := update_self ..
  have hready := hadd.of_sameBut (sameBut_setReady hself)
  have herase : SameBut p ((s.addEntry p e).setReady p e)
      (({ s with calls := s.calls.eraseIdx i }.addEntry p e).setReady p e) :=
    { SameBut.refl p _ with callsOf := hstep.erase_ne }
  obtain ⟨hok, hsame, hlen⟩ := (hready.of_sameBut herase).evictLocked
  refine ⟨hok.ok (hsame.capacity.symm ▸ hlen) (hsame.shaped_iff.mpr ?_) fun hpromised => ?_, hp⟩
  · show RegShape (Option.map PidRegEntry.state (update (update s.byPID p (some e)) p
      (some { e with state := .ready }) p)) (s.queueOf p) (s.worker.view p) (callsFor (s.calls.eraseIdx i) p)
      (s.installed p)
    rw [update_self, hstep.erase_self]
    exact hshape'
  · have hold : s.promised p = true := hsame.promised.symm.trans hpromised
    rw [h.promised_eq_false hp] at hold
    cases hold

theorem Ok.call (h : s.Ok) (i : Nat) : (s.call i).Ok := by
  unfold PidRegistry.call
  cases hi : s.calls[i]? with
  | none => exact h
  | some c =>
    obtain ⟨p, c⟩ := c
    cases c with
    | enrollRegistering => exact h.callRegister hi RegShape.callRegister
    | enrollRegistered =>
      cases hp : s.byPID p with
      | some e =>
        simp only [hp]
        exact h.callEnrollRegistered hi hp
      | none =>
        simp only [hp]
        exact h.callEvictedMidFlight hi hp
    | enrollUnregistering => exact h.callUnregister hi
    | nowRegistering => exact h.callRegister hi RegShape.nowRegister
    | nowRegistered =>
      obtain ⟨hok, hp⟩ := h.callNowRegistered hi
      simp only [hp]
      exact hok

/-! ### The worker -/

theorem workOf_cons (w : PidWork) (work : List PidWork) (q : UInt32) :
    workOf (w :: work) q = (if w.pid = q then [w.release] else []) ++ workOf work q := by
  unfold workOf
  by_cases hw : w.pid = q
  · simp [hw]
  · simp [hw]

theorem Ok.dequeue (h : s.Ok) {w : PidWork} {work : List PidWork} (hworker : s.worker = .idle)
    (hwork : s.work = w :: work) :
    Ok { s with work := work, worker := if w.release then .unregistering w.pid else .registering w.pid } := by
  have hqueue : ∀ q, s.queueOf q = (if w.pid = q then [w.release] else []) ++ workOf work q := by
    intro q
    rw [← workOf_cons, ← hwork]
    rfl
  have hview : ∀ q, (if w.release then RegWorker.unregistering w.pid else .registering w.pid).view q =
      if w.pid = q then (if w.release then .unregistering else .registering) else .away := by
    intro q
    cases w.release
    · rfl
    · rfl
  have hsame : SameBut w.pid s
      { s with work := work, worker := if w.release then .unregistering w.pid else .registering w.pid } :=
    { SameBut.refl w.pid s with
      queueOf := fun q hq => by
        rw [hqueue q, if_neg (Ne.symm hq)]
        rfl
      view := fun q hq => by
        rw [hworker]
        exact (hview q).trans (if_neg (Ne.symm hq)) }
  refine h.of_sameBut hsame ?_ (h.promised w.pid)
  have hshape := h.shaped w.pid
  unfold Shaped at hshape
  rw [hqueue w.pid, if_pos rfl, hworker] at hshape
  show RegShape (s.tracked w.pid) (workOf work w.pid)
    ((if w.release then RegWorker.unregistering w.pid else .registering w.pid).view w.pid) (s.callsOf w.pid)
    (s.installed w.pid)
  rw [hview, if_pos rfl]
  exact RegShape.dequeue hshape

theorem sameBut_worker {p : UInt32} {w : RegWorker} (hold : ∀ q, q ≠ p → s.worker.view q = .away)
    (hnew : ∀ q, q ≠ p → w.view q = .away) : SameBut p s { s with worker := w } :=
  { SameBut.refl p s with view := fun q hq => (hnew q hq).trans (hold q hq).symm }

theorem Ok.workRegister (h : s.Ok) {p : UInt32} (hworker : s.worker = .registering p) :
    Ok { s.register p with worker := .registered p } := by
  have hshape := h.shaped p
  unfold Shaped at hshape
  rw [hworker, show (RegWorker.registering p).view p = .registering from if_pos rfl] at hshape
  obtain ⟨hshape', hinstalled⟩ := RegShape.register hshape
  have hsame := sameBut_worker (s := s) (p := p) (w := .registered p)
    (fun q hq => by rw [hworker]; exact if_neg (Ne.symm hq)) (fun q hq => if_neg (Ne.symm hq))
  refine h.of_sameBut (hsame.trans (sameBut_register hinstalled)) ?_ (h.promised p)
  show RegShape (s.tracked p) (s.queueOf p) ((RegWorker.registered p).view p) (s.callsOf p)
    (update s.installed p true p)
  rw [update_self, show (RegWorker.registered p).view p = .registered from if_pos rfl]
  exact hshape'

theorem Ok.workRecord (h : s.Ok) {p : UInt32} {e : PidRegEntry} (hworker : s.worker = .registered p)
    (hp : s.byPID p = some e) : Ok { s.setReady p e with worker := .idle } := by
  have hshape := h.shaped p
  unfold Shaped tracked at hshape
  rw [hworker, hp, show (RegWorker.registered p).view p = .registered from if_pos rfl] at hshape
  have htracked : Option.map PidRegEntry.state (update s.byPID p (some { e with state := .ready }) p) =
      some .ready := by
    rw [update_self]
    rfl
  have hsame := sameBut_worker (s := s) (p := p) (w := .idle)
    (fun q hq => by rw [hworker]; exact if_neg (Ne.symm hq)) (fun q hq => rfl)
  refine h.of_sameBut (hsame.trans (sameBut_setReady (s := { s with worker := .idle }) hp)) ?_ fun _ => htracked
  show RegShape (Option.map PidRegEntry.state (update s.byPID p (some { e with state := .ready }) p))
    (s.queueOf p) .away (s.callsOf p) (s.installed p)
  rw [htracked]
  exact RegShape.record hshape

theorem Ok.workEvictedMidFlight (h : s.Ok) {p : UInt32} (hworker : s.worker = .registered p) (hp : s.byPID p = none) :
    Ok { s with worker := .unregistering p, registered := s.registered + 1 } := by
  have hshape := h.shaped p
  unfold Shaped tracked at hshape
  rw [hworker, hp, show (RegWorker.registered p).view p = .registered from if_pos rfl] at hshape
  have hsame := sameBut_worker (s := s) (p := p) (w := .unregistering p)
    (fun q hq => by rw [hworker]; exact if_neg (Ne.symm hq)) (fun q hq => if_neg (Ne.symm hq))
  refine h.of_sameBut (hsame.trans (sameBut_registered _ p _)) ?_ (h.promised p)
  show RegShape (Option.map PidRegEntry.state (s.byPID p)) (s.queueOf p) ((RegWorker.unregistering p).view p)
    (s.callsOf p) (s.installed p)
  rw [hp, show (RegWorker.unregistering p).view p = .unregistering from if_pos rfl]
  exact RegShape.record hshape

theorem Ok.workUnregister (h : s.Ok) {p : UInt32} (hworker : s.worker = .unregistering p) :
    Ok { s.unregister p with worker := .idle } := by
  have hshape := h.shaped p
  unfold Shaped at hshape
  rw [hworker, show (RegWorker.unregistering p).view p = .unregistering from if_pos rfl] at hshape
  obtain ⟨hshape', -⟩ := RegShape.unregister hshape
  have hsame := sameBut_worker (s := s) (p := p) (w := .idle)
    (fun q hq => by rw [hworker]; exact if_neg (Ne.symm hq)) (fun q hq => rfl)
  refine h.of_sameBut (hsame.trans (sameBut_unregister _ p)) ?_ (h.promised p)
  show RegShape (s.tracked p) (s.queueOf p) .away (s.callsOf p) (update s.installed p false p)
  rw [update_self]
  exact hshape'

theorem Ok.run (h : s.Ok) : s.run.Ok := by
  unfold PidRegistry.run
  cases hworker : s.worker with
  | idle =>
    cases hwork : s.work with
    | nil => exact h
    | cons w work => exact h.dequeue hworker hwork
  | registering p => exact h.workRegister hworker
  | registered p =>
    cases hp : s.byPID p with
    | some e =>
      simp only [hp]
      exact h.workRecord hworker hp
    | none =>
      simp only [hp]
      exact h.workEvictedMidFlight hworker hp
  | unregistering p => exact h.workUnregister hworker

/-! ## Runs -/

structure Sound (s : PidRegistry) : Prop where
  /-- With no call of the registrar queued or running, the tables are those of the processes that are
  ready. -/
  installed_iff : s.work = [] → s.worker = .idle → s.calls = [] → ∀ p, s.installed p = true ↔ s.tracked p = some .ready
  /-- Between two `Register`s of a process there is an `Unregister`. -/
  once : s.registeredTwice = false
  /-- What `enroll` has answered stays true until the process is evicted. -/
  kept : ∀ p, s.promised p = true → s.installed p = true
  /-- The map and the list have the same entries. -/
  nodup : s.lru.Nodup
  mem_iff : ∀ p, p ∈ s.lru ↔ s.byPID p ≠ none
  length_le : s.lru.length ≤ s.capacity

/-- A process comes back when the calls of its last time are through.  The worker may still have to
release its tables, if it is the worker that installs them again. -/
def Timely (s : PidRegistry) : RegAction → Prop
  | .note pid => s.byPID pid = none →
      false ∉ s.queueOf pid ∧ s.worker.view pid ≠ .registering ∧ s.worker.view pid ≠ .registered ∧ s.callsOf pid = []
  | .enroll pid => s.byPID pid = none → s.Still pid
  | .registerNow pid => s.Still pid
  | .call _ => True
  | .run => True

theorem Ok.sound (h : s.Ok) : s.Sound where
  installed_iff := by
    intro hwork hworker hcalls p
    have hshape := h.shaped p
    unfold Shaped PidRegistry.queueOf PidRegistry.callsOf at hshape
    rw [hwork, hworker, hcalls] at hshape
    exact RegShape.installed_iff hshape
  once := h.once
  kept := by
    intro p hpromised
    have hshape := h.shaped p
    unfold Shaped at hshape
    rw [h.promised p hpromised] at hshape
    exact RegShape.installed_of_ready hshape
  nodup := h.nodup
  mem_iff := h.mem_iff
  length_le := h.length_le

theorem ok_step (h : s.Ok) (a : RegAction) (ha : s.Timely a) : (s.step a).Ok := by
  cases a with
  | note pid => exact h.note ha
  | enroll pid => exact h.enroll ha
  | registerNow pid => exact h.registerNow ha
  | call i => exact h.call i
  | run => exact h.run

theorem ok_empty {capacity : ℕ} (hcap : 0 < capacity) : Ok { capacity := capacity } := by
  refine ⟨⟨hcap, nodup_nil, fun p => ?_⟩, fun p => .rest, fun p hp => ?_, rfl, Nat.zero_le _⟩
  · simp
  · cases hp

/-- In every run whose steps come at no bad time, the processes that are ready have their tables, once. -/
theorem registry_sound {capacity : ℕ} (hcap : 0 < capacity) (as : List RegAction)
    (h : Along step Timely { capacity := capacity } as) : (as.foldl step { capacity := capacity }).Sound :=
  Ok.sound (Along.invariant (I := fun _ s => s.Ok) (ok_empty hcap) (fun _ _ a hs ha => ok_step hs a ha) h)

/-- A process is enrolled and evicted, and comes back while its release is queued. -/
def evictedAndBack : List RegAction :=
  [.enroll 7, .call 0, .call 0, .note 8, .note 7, .run, .run, .run, .run, .run, .run, .run, .run, .run]

theorem registry_sound_evictedAndBack : (evictedAndBack.foldl step { capacity := 1 }).installed 7 = true ∧
      (evictedAndBack.foldl step { capacity := 1 }).tracked 7 = some .ready := by
  have hsound := registry_sound Nat.one_pos evictedAndBack ?_
  · have hready : (evictedAndBack.foldl step { capacity := 1 }).tracked 7 = some .ready := by decide
    exact ⟨(hsound.installed_iff rfl rfl rfl 7).mpr hready, hready⟩
  · exact ⟨fun _ => ⟨rfl, rfl, rfl, rfl⟩, trivial, trivial, fun _ => by decide, fun _ => by decide, trivial, trivial,
      trivial, trivial, trivial, trivial, trivial, trivial, trivial, trivial⟩

/-- A process is evicted when it is ready, and enrolled again before the worker has released its tables. -/
def enrolledBeforeRelease : List RegAction :=
  [.enroll 7, .call 0, .call 0, .enroll 8, .enroll 7, .call 1, .call 1, .run, .run, .call 0, .call 0, .call 0]

/-- The second `Register` comes on top of the first, and the release then removes the tables that `enroll`
has promised. -/
theorem not_sound_enrolledBeforeRelease : ¬ (enrolledBeforeRelease.foldl step { capacity := 1 }).Sound := by
  intro h
  exact absurd (h.kept 7 rfl) (by decide)

end PidRegistry

end PerfAgent.Gpuprobe
