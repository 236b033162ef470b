import PerfAgent.Dwarfagent.LazyInterp

/-!
# What enrolment keeps

Modules hold state for the processes that are recorded as claimed, and for no other; a process that
was recognised keeps its state until it exits; and a process that maps something executable before it
is recognised is looked at again when it is sampled.

This takes some luck with the calls outside the lock.  `Detach` of a process that has exited may come
after its successor was enrolled, and then removes the state of that one; an mmap during `Enroll` is
forgotten; and a second exit during one `Enroll` hides the first.
-/

namespace PerfAgent.Dwarfagent

open List Function

/-! ## One process id -/

inductive WorkerView where
  | away
  | enrolling (process : Nat)
  | returned (process : Nat) (found : Bool)
  | detaching
deriving DecidableEq

def WorkerView.process : WorkerView → Option Nat
  | .enrolling n | .returned n _ => some n
  | .away | .detaching => none

def EnrolWorker.view (w : EnrolWorker) (pid : UInt32) : WorkerView :=
  match w with
  | .idle => .away
  | .enrolling q n => if q = pid then .enrolling n else .away
  | .returned q n found => if q = pid then .returned n found else .away
  | .detaching q => if q = pid then .detaching else .away

variable {unlooked : Bool}

def EnrolObserver.detaches (o : EnrolObserver) (pid : UInt32) : Bool := o = .detaching pid

namespace PidRecord

structure Ok (r : PidRecord) (w : WorkerView) (o : Bool) : Prop where
  enrolling : r.state = some .enrolling → w.process = some r.incarnation
  exited : r.state = some .enrollingExited → ∃ n, n < r.incarnation ∧ w.process = some n
  away : r.state ≠ some .enrolling → r.state ≠ some .enrollingExited → w.process = none
  claimed : r.state = some .claimed →
    w = .away ∧ o = false ∧ r.held = some r.incarnation ∧ r.recognised = some r.incarnation
  returned : ∀ n, w = .returned n true → o = false ∧ r.held = some n ∧ r.recognised = some n
  held : ∀ n, r.held = some n →
    r.state = some .claimed ∨ w = .returned n true ∨ (w = .detaching ∨ o = true) ∧ n < r.incarnation
  recognised : r.recognised = some r.incarnation → r.state = some .claimed ∨ w = .returned r.incarnation true
  recognised_le : ∀ n, r.recognised = some n → n ≤ r.incarnation
  unlooked : r.unlooked = true → r.state = none ∨ r.state = some .queued ∨ r.state = some .enrollingExited

theorem ok_empty : Ok {} .away false := by
  constructor <;> simp [WorkerView.process]

variable {r : PidRecord} {w : WorkerView} {o : Bool}

theorem Ok.process_le (h : r.Ok w o) {n : Nat} (hn : w.process = some n) : n ≤ r.incarnation := by
  by_cases henrolling : r.state = some .enrolling
  · rw [h.enrolling henrolling] at hn
    exact Option.some.inj hn ▸ Nat.le_refl _
  · by_cases hexited : r.state = some .enrollingExited
    · obtain ⟨m, hlt, hm⟩ := h.exited hexited
      rw [hm] at hn
      exact Option.some.inj hn ▸ Nat.le_of_lt hlt
    · rw [h.away henrolling hexited] at hn
      cases hn

theorem Ok.withDue (h : r.Ok w o) (due : Option Nat) : Ok { r with due := due } w o :=
  ⟨h.enrolling, h.exited, h.away, h.claimed, h.returned, h.held, h.recognised, h.recognised_le, h.unlooked⟩

theorem Ok.held_of_ne (h : r.Ok w o) (hstate : r.state ≠ some .claimed) {n : Nat} (hn : r.held = some n) :
    w = .returned n true ∨ (w = .detaching ∨ o = true) ∧ n < r.incarnation :=
  (h.held n hn).resolve_left hstate

theorem Ok.recognised_of_ne (h : r.Ok w o) (hstate : r.state ≠ some .claimed)
    (hrecognised : r.recognised = some r.incarnation) : w = .returned r.incarnation true :=
  (h.recognised hrecognised).resolve_left hstate

structure Resting (state : Option PidInterpState) : Prop where
  ne_enrolling : state ≠ some .enrolling
  ne_exited : state ≠ some .enrollingExited
  ne_claimed : state ≠ some .claimed

theorem Ok.relabel (h : r.Ok w o) (hold : Resting r.state) {state : Option PidInterpState} (hnew : Resting state)
    (hunlooked : unlooked = true → state = none ∨ state = some .queued) :
    Ok { r with state := state, unlooked := unlooked } w o where
  enrolling := fun hstate => absurd hstate hnew.ne_enrolling
  exited := fun hstate => absurd hstate hnew.ne_exited
  away := fun _ _ => h.away hold.ne_enrolling hold.ne_exited
  claimed := fun hstate => absurd hstate hnew.ne_claimed
  returned := h.returned
  held := fun _ hn => .inr (h.held_of_ne hold.ne_claimed hn)
  recognised := fun hrecognised => .inr (h.recognised_of_ne hold.ne_claimed hrecognised)
  recognised_le := h.recognised_le
  unlooked := fun htrue => (hunlooked htrue).imp_right .inl

theorem Ok.withUnlooked (h : r.Ok w o)
    (hunlooked : unlooked = true → r.state = none ∨ r.state = some .queued ∨ r.state = some .enrollingExited) :
    Ok { r with unlooked := unlooked } w o :=
  ⟨h.enrolling, h.exited, h.away, h.claimed, h.returned, h.held, h.recognised, h.recognised_le, hunlooked⟩

theorem Ok.queue (h : r.Ok w o) (hstate : r.state = none) : Ok { r with state := some .queued } w o :=
  h.relabel (hstate ▸ ⟨by simp, by simp, by simp⟩) ⟨by simp, by simp, by simp⟩ fun _ => .inr rfl

theorem Ok.mmap (h : r.Ok w o) (hstate : r.state ≠ some .enrolling) :
    Ok { r with
      state := if r.state = some .foreign then none else r.state
      unlooked := r.unlooked || r.recognised ≠ some r.incarnation } w o := by
  by_cases hforeign : r.state = some .foreign
  · rw [if_pos hforeign]
    exact h.relabel (hforeign ▸ ⟨by simp, by simp, by simp⟩) ⟨by simp, by simp, by simp⟩ fun _ => .inl rfl
  · rw [if_neg hforeign]
    refine h.withUnlooked fun hunlooked => ?_
    rcases Bool.or_eq_true_iff.mp hunlooked with hunlooked | hrecognised
    · exact h.unlooked hunlooked
    · cases hst : r.state with
      | none => exact .inl rfl
      | some st =>
        cases st with
        | queued => exact .inr (.inl rfl)
        | enrollingExited => exact .inr (.inr rfl)
        | enrolling => exact absurd hst hstate
        | foreign => exact absurd hst hforeign
        | claimed => exact absurd (h.claimed hst).2.2.2 (of_decide_eq_true hrecognised)

def next (r : PidRecord) : PidRecord := { r with incarnation := r.incarnation + 1, unlooked := false, due := none }

theorem Ok.not_recognised_next (h : r.Ok w o) : r.recognised ≠ some (r.incarnation + 1) :=
  fun hrecognised => Nat.not_succ_le_self _ (h.recognised_le _ hrecognised)

theorem Ok.held_next (h : r.Ok w o) (hstate : r.state ≠ some .claimed) {n : Nat} (hn : r.held = some n) :
    w = .returned n true ∨ (w = .detaching ∨ o = true) ∧ n < r.incarnation + 1 :=
  (h.held_of_ne hstate hn).imp_right fun hdetach => ⟨hdetach.1, Nat.lt_succ_of_lt hdetach.2⟩

theorem Ok.exitEnrolling (h : r.Ok w o) (hstate : r.state = some .enrolling) :
    Ok { r.next with state := some .enrollingExited } w o where
  enrolling := fun hs => by cases hs
  exited := fun _ => ⟨r.incarnation, Nat.lt_succ_self _, h.enrolling hstate⟩
  away := fun _ hs => absurd rfl hs
  claimed := fun hs => by cases hs
  returned := h.returned
  held := fun _ hn => .inr (h.held_next (by rw [hstate]; simp) hn)
  recognised := fun hrecognised => absurd hrecognised h.not_recognised_next
  recognised_le := fun n hn => Nat.le_succ_of_le (h.recognised_le n hn)
  unlooked := fun hs => by cases hs

theorem Ok.exitClaimed (h : r.Ok w false) (hstate : r.state = some .claimed) :
    Ok { r.next with state := none } w true := by
  obtain ⟨rfl, -, hheld, -⟩ := h.claimed hstate
  exact
    { enrolling := fun hs => by cases hs
      exited := fun hs => by cases hs
      away := fun _ _ => rfl
      claimed := fun hs => by cases hs
      returned := fun n hn => by cases hn
      held := fun n hn => by
        have hn : r.held = some n := hn
        rw [hheld] at hn
        cases hn
        exact .inr (.inr ⟨.inr rfl, Nat.lt_succ_self _⟩)
      recognised := fun hrecognised => absurd hrecognised h.not_recognised_next
      recognised_le := fun n hn => Nat.le_succ_of_le (h.recognised_le n hn)
      unlooked := fun hs => by cases hs }

theorem Ok.exitOther (h : r.Ok w o) (henrolling : r.state ≠ some .enrolling)
    (hexited : r.state ≠ some .enrollingExited) (hclaimed : r.state ≠ some .claimed) :
    Ok { r.next with state := none } w o where
  enrolling := fun hs => by cases hs
  exited := fun hs => by cases hs
  away := fun _ _ => h.away henrolling hexited
  claimed := fun hs => by cases hs
  returned := h.returned
  held := fun _ hn => .inr (h.held_next hclaimed hn)
  recognised := fun hrecognised => absurd hrecognised h.not_recognised_next
  recognised_le := fun n hn => Nat.le_succ_of_le (h.recognised_le n hn)
  unlooked := fun hs => by cases hs

theorem Ok.exitDetach (h : r.Ok w true) : Ok { r with held := none } w false where
  enrolling := h.enrolling
  exited := h.exited
  away := h.away
  claimed := fun hs => by cases (h.claimed hs).2.1
  returned := fun n hn => by cases (h.returned n hn).1
  held := fun n hn => by cases hn
  recognised := h.recognised
  recognised_le := h.recognised_le
  unlooked := h.unlooked

theorem Ok.enroll (h : r.Ok .away o) (hstate : r.state = some .queued) :
    Ok { r with state := some .enrolling, unlooked := false, due := none } (.enrolling r.incarnation) o := by
  have hclaimed : r.state ≠ some .claimed := by
    rw [hstate]
    simp
  exact
    { enrolling := fun _ => rfl
      exited := fun hs => by cases hs
      away := fun hs => absurd rfl hs
      claimed := fun hs => by cases hs
      returned := fun n hn => by cases hn
      held := fun n hn => by
        rcases h.held_of_ne hclaimed hn with hreturned | ⟨hdetach | ho, hlt⟩
        · cases hreturned
        · cases hdetach
        · exact .inr (.inr ⟨.inr ho, hlt⟩)
      recognised := fun hrecognised => by cases h.recognised_of_ne hclaimed hrecognised
      recognised_le := h.recognised_le
      unlooked := fun hs => by cases hs }

theorem Ok.found {n : Nat} (h : r.Ok (.enrolling n) false) :
    Ok { r with held := some n, recognised := some n } (.returned n true) false where
  enrolling := h.enrolling
  exited := h.exited
  away := h.away
  claimed := fun hs => by cases (h.claimed hs).1
  returned := fun m hm => by
    cases hm
    exact ⟨rfl, rfl, rfl⟩
  held := fun m hm => by
    cases hm
    exact .inr (.inl rfl)
  recognised := fun hrecognised => .inr (by rw [Option.some.inj hrecognised])
  recognised_le := fun m hm => by
    cases hm
    exact h.process_le rfl
  unlooked := h.unlooked

theorem Ok.notFound {n : Nat} (h : r.Ok (.enrolling n) o) : r.Ok (.returned n false) o where
  enrolling := h.enrolling
  exited := h.exited
  away := h.away
  claimed := fun hs => by cases (h.claimed hs).1
  returned := fun m hm => by cases hm
  held := fun m hm => by
    rcases h.held m hm with hclaimed | hreturned | ⟨hdetach | ho, hlt⟩
    · exact .inl hclaimed
    · cases hreturned
    · cases hdetach
    · exact .inr (.inr ⟨.inr ho, hlt⟩)
  recognised := fun hrecognised => by
    rcases h.recognised hrecognised with hclaimed | hreturned
    · exact .inl hclaimed
    · cases hreturned
  recognised_le := h.recognised_le
  unlooked := h.unlooked

theorem Ok.recordExited {n : Nat} {found : Bool} (h : r.Ok (.returned n found) o)
    (hstate : r.state = some .enrollingExited) :
    Ok { r with state := none } (if found then .detaching else .away) o := by
  have hclaimed : r.state ≠ some .claimed := by
    rw [hstate]
    simp
  have hlt : n < r.incarnation := by
    obtain ⟨m, hlt, hm⟩ := h.exited hstate
    cases hm
    exact hlt
  exact
    { enrolling := fun hs => by cases hs
      exited := fun hs => by cases hs
      away := fun _ _ => by cases found <;> rfl
      claimed := fun hs => by cases hs
      returned := fun m hm => by cases found <;> cases hm
      held := fun m hm => by
        rcases h.held_of_ne hclaimed hm with hreturned | ⟨hdetach | ho, hm⟩
        · cases hreturned
          exact .inr (.inr ⟨.inl rfl, hlt⟩)
        · cases hdetach
        · exact .inr (.inr ⟨.inr ho, hm⟩)
      recognised := fun hrecognised => by
        have hreturned := h.recognised_of_ne hclaimed hrecognised
        cases hreturned
        exact absurd hlt (Nat.lt_irrefl _)
      recognised_le := h.recognised_le
      unlooked := fun _ => .inl rfl }

theorem Ok.record {n : Nat} {found : Bool} (h : r.Ok (.returned n found) o) (hstate : r.state ≠ some .enrollingExited) :
    Ok { r with state := some (if found then .claimed else .foreign) } .away o := by
  -- the worker is at the process of now, or its state would be that of an exited one
  have henrolling : r.state = some .enrolling := by
    by_contra hne
    cases h.away hne hstate
  have hclaimed : r.state ≠ some .claimed := by
    rw [henrolling]
    simp
  obtain rfl : n = r.incarnation := Option.some.inj (h.enrolling henrolling)
  have hunlooked : r.unlooked = true → False := by
    intro htrue
    rcases h.unlooked htrue with hs | hs | hs
    · rw [henrolling] at hs
      cases hs
    · rw [henrolling] at hs
      cases hs
    · exact hstate hs
  exact
    { enrolling := fun hs => by cases found <;> cases hs
      exited := fun hs => by cases found <;> cases hs
      away := fun _ _ => rfl
      claimed := fun hs => by
        cases found with
        | true => exact ⟨rfl, h.returned _ rfl⟩
        | false => cases hs
      returned := fun m hm => by cases hm
      held := fun m hm => by
        rcases h.held_of_ne hclaimed hm with hreturned | ⟨hdetach | ho, hlt⟩
        · cases hreturned
          exact .inl rfl
        · cases hdetach
        · exact .inr (.inr ⟨.inr ho, hlt⟩)
      recognised := fun hrecognised => by
        cases h.recognised_of_ne hclaimed hrecognised
        exact .inl rfl
      recognised_le := h.recognised_le
      unlooked := fun htrue => (hunlooked htrue).elim }

theorem Ok.enrolDetach (h : r.Ok .detaching o) : Ok { r with held := none } .away o where
  enrolling := fun hs => by cases h.enrolling hs
  exited := fun hs => by
    obtain ⟨_, -, hm⟩ := h.exited hs
    cases hm
  away := fun _ _ => rfl
  claimed := fun hs => by cases (h.claimed hs).1
  returned := fun n hn => by cases hn
  held := fun n hn => by cases hn
  recognised := fun hrecognised => by
    rcases h.recognised hrecognised with hclaimed | hreturned
    · exact .inl hclaimed
    · cases hreturned
  recognised_le := h.recognised_le
  unlooked := h.unlooked

end PidRecord

structure PidRecord.Waits (r : PidRecord) (pid : UInt32) (queue : List UInt32) (taken : Nat) : Prop where
  queued : r.state = some .queued → pid ∈ queue
  due : ∀ d, r.due = some d → r.state = some .queued ∧ ∃ i, queue[i]? = some pid ∧ taken + i < d

variable {pid : UInt32}

theorem PidRecord.Waits.due_eq_none {r : PidRecord} {queue : List UInt32} {taken : Nat} (h : r.Waits pid queue taken)
    (hstate : r.state ≠ some .queued) : r.due = none := by
  cases hdue : r.due with
  | none => rfl
  | some d => exact absurd (h.due d hdue).1 hstate

theorem PidRecord.waits_of_ne {r : PidRecord} {queue : List UInt32} {taken : Nat} (hstate : r.state ≠ some .queued)
    (hdue : r.due = none) : r.Waits pid queue taken where
  queued := fun h => absurd h hstate
  due := by
    intro d h
    rw [hdue] at h
    cases h

theorem PidRecord.Waits.append {r : PidRecord} {queue : List UInt32} {taken : Nat} (h : r.Waits pid queue taken)
    (q : UInt32) : r.Waits pid (queue ++ [q]) taken where
  queued := fun hstate => mem_append_left _ (h.queued hstate)
  due := by
    intro d hdue
    obtain ⟨hstate, i, hi, hlt⟩ := h.due d hdue
    refine ⟨hstate, i, ?_, hlt⟩
    rw [getElem?_append_left (List.getElem?_eq_some_iff.mp hi).1]
    exact hi

theorem PidRecord.Waits.tail {r : PidRecord} {q : UInt32} {queue : List UInt32} {taken : Nat}
    (h : r.Waits pid (q :: queue) taken) (hne : pid ≠ q) : r.Waits pid queue (taken + 1) where
  queued := fun hstate => (mem_cons.mp (h.queued hstate)).resolve_left hne
  due := by
    intro d hdue
    obtain ⟨hstate, i, hi, hlt⟩ := h.due d hdue
    refine ⟨hstate, ?_⟩
    cases i with
    | zero => exact absurd (Option.some.inj hi).symm hne
    | succ i => exact ⟨i, hi, by omega⟩

namespace LazyInterp

structure Ok (s : LazyInterp) : Prop where
  record : ∀ p, (s.pids p).Ok (s.worker.view p) (s.observer.detaches p)
  waits : ∀ p, (s.pids p).Waits p s.queue s.taken

variable {s s' : LazyInterp}

theorem Ok.of_update (h : s.Ok) {p : UInt32} {r : PidRecord} (hpids : s'.pids = update s.pids p r)
    (hview : ∀ q, q ≠ p → s'.worker.view q = s.worker.view q)
    (hdetaches : ∀ q, q ≠ p → s'.observer.detaches q = s.observer.detaches q)
    (hrecord : r.Ok (s'.worker.view p) (s'.observer.detaches p)) (hwait : r.Waits p s'.queue s'.taken)
    (hwaits : ∀ q, q ≠ p → (s.pids q).Waits q s'.queue s'.taken) : s'.Ok where
  record := by
    intro q
    rw [hpids]
    by_cases hq : q = p
    · subst hq
      rw [update_self]
      exact hrecord
    · rw [update_of_ne hq, hview q hq, hdetaches q hq]
      exact h.record q
  waits := by
    intro q
    rw [hpids]
    by_cases hq : q = p
    · subst hq
      rw [update_self]
      exact hwait
    · rw [update_of_ne hq]
      exact hwaits q hq

theorem Ok.of_eq (h : s.Ok) (hpids : s'.pids = s.pids) (hworker : s'.worker = s.worker)
    (hobserver : s'.observer = s.observer) (hqueue : s'.queue = s.queue) (htaken : s'.taken = s.taken) : s'.Ok where
  record := by
    rw [hpids, hworker, hobserver]
    exact h.record
  waits := by
    rw [hpids, hqueue, htaken]
    exact h.waits

/-! ## The steps -/

theorem Ok.noteSample (h : s.Ok) {pid : UInt32}
    (hqueued : (s.pids pid).unlooked = true → (s.pids pid).state = some .queued) :
    (s.noteSample pid).Ok := by
  unfold LazyInterp.noteSample
  dsimp only
  split
  · next hunlooked =>
      have hstate := hqueued hunlooked.1
      obtain ⟨i, hi, hget⟩ := mem_iff_getElem.mp ((h.waits pid).queued hstate)
      refine h.of_update rfl (fun _ _ => rfl) (fun _ _ => rfl) ((h.record pid).withDue _) ?_ fun q _ => h.waits q
      refine ⟨fun _ => (h.waits pid).queued hstate, fun d hd => ⟨hstate, i, ?_, ?_⟩⟩
      · exact (getElem?_eq_getElem hi).trans (congrArg some hget)
      · cases hd
        exact Nat.add_lt_add_left hi _
  · exact h

theorem Ok.sampled (h : s.Ok) {pid : UInt32}
    (hseen : (s.pids pid).unlooked = true → (s.pids pid).state ≠ some .enrollingExited)
    (hroom : (s.pids pid).unlooked = true → (s.pids pid).state = none → s.queue.length < lazyEnrolQueue) :
    (s.sampled pid).Ok := by
  unfold LazyInterp.sampled
  split
  · exact h
  · cases hstate : (s.pids pid).state with
    | some st =>
      refine h.noteSample fun hunlooked => ?_
      rcases (h.record pid).unlooked hunlooked with hnone | hqueued | hexited
      · rw [hstate] at hnone
        cases hnone
      · exact hqueued
      · exact absurd hexited (hseen hunlooked)
    | none =>
      dsimp only
      split
      · have hqueue : Ok ({ s with queue := s.queue ++ [pid] }.setPid pid
            { s.pids pid with state := some .queued }) := by
          refine h.of_update rfl (fun _ _ => rfl) (fun _ _ => rfl) ((h.record pid).queue hstate) ?_
            fun q _ => (h.waits q).append pid
          refine ⟨fun _ => mem_append_right _ (mem_singleton_self pid), fun d hd => ?_⟩
          have hnone : (s.pids pid).due = none := (h.waits pid).due_eq_none (by rw [hstate]; simp)
          rw [show (s.pids pid).due = some d from hd] at hnone
          cases hnone
        refine hqueue.noteSample fun _ => ?_
        show (update s.pids pid { s.pids pid with state := some .queued } pid).state = _
        rw [update_self]
      · next hfull =>
          have hdeferred : Ok { s with deferred := s.deferred + 1 } := h.of_eq rfl rfl rfl rfl rfl
          refine hdeferred.noteSample fun hunlooked => ?_
          exact absurd (hroom hunlooked hstate) hfull

theorem Ok.observeMmap (h : s.Ok) {ev : MmapEvent}
    (henrolling : ev.rearms = true → (s.pids ev.pid).state ≠ some .enrolling) : (s.observeMmap ev).Ok := by
  unfold LazyInterp.observeMmap
  split
  · next hrearms =>
      refine h.of_update rfl (fun _ _ => rfl) (fun _ _ => rfl) ((h.record ev.pid).mmap (henrolling hrearms)) ?_
        fun q _ => h.waits q
      by_cases hforeign : (s.pids ev.pid).state = some .foreign
      · refine PidRecord.waits_of_ne ?_ ((h.waits ev.pid).due_eq_none (by rw [hforeign]; simp))
        rw [if_pos hforeign]
        simp
      · have hsame := h.waits ev.pid
        refine ⟨fun hstate => hsame.queued ?_, fun d hd => ?_⟩
        · rw [if_neg hforeign] at hstate
          exact hstate
        · rw [if_neg hforeign]
          exact hsame.due d hd
  · exact h

theorem detaches_idle (p : UInt32) : EnrolObserver.idle.detaches p = false := decide_eq_false (by simp)

theorem detaches_self (p : UInt32) : (EnrolObserver.detaching p).detaches p = true := decide_eq_true rfl

theorem detaches_of_ne {p q : UInt32} (hne : q ≠ p) : (EnrolObserver.detaching p).detaches q = false :=
  decide_eq_false fun h => hne (EnrolObserver.detaching.inj h).symm

theorem Ok.exited (h : s.Ok) (hidle : s.observer = .idle) {pid : UInt32}
    (hexited : (s.pids pid).state ≠ some .enrollingExited) : (s.exited pid).Ok := by
  have hrecord := h.record pid
  unfold LazyInterp.exited
  dsimp only
  cases hstate : (s.pids pid).state with
  | none =>
    exact h.of_update rfl (fun _ _ => rfl) (fun _ _ => rfl)
      (hrecord.exitOther (by rw [hstate]; simp) hexited (by rw [hstate]; simp))
      (PidRecord.waits_of_ne (by simp) rfl) fun q _ => h.waits q
  | some st =>
    cases st with
    | enrolling =>
      refine h.of_update rfl (fun _ _ => rfl) (fun _ _ => rfl) (hrecord.exitEnrolling hstate)
        (PidRecord.waits_of_ne (by simp) rfl) fun q _ => h.waits q
    | claimed =>
      refine h.of_update rfl (fun _ _ => rfl) (fun q hq => ?_) ?_ (PidRecord.waits_of_ne (by simp) rfl)
        fun q _ => h.waits q
      · rw [hidle]
        exact (detaches_of_ne hq).trans (detaches_idle q).symm
      · rw [hidle, detaches_idle] at hrecord
        show PidRecord.Ok _ _ ((EnrolObserver.detaching pid).detaches pid)
        rw [detaches_self]
        exact hrecord.exitClaimed hstate
    | enrollingExited => exact absurd hstate hexited
    | queued =>
      exact h.of_update rfl (fun _ _ => rfl) (fun _ _ => rfl)
        (hrecord.exitOther (by rw [hstate]; simp) hexited (by rw [hstate]; simp))
        (PidRecord.waits_of_ne (by simp) rfl) fun q _ => h.waits q
    | foreign =>
      exact h.of_update rfl (fun _ _ => rfl) (fun _ _ => rfl)
        (hrecord.exitOther (by rw [hstate]; simp) hexited (by rw [hstate]; simp))
        (PidRecord.waits_of_ne (by simp) rfl) fun q _ => h.waits q

theorem Ok.exitDetach (h : s.Ok) {pid : UInt32} (hdetaching : s.observer = .detaching pid) :
    Ok { s.detach pid with observer := .idle } := by
  refine h.of_update rfl (fun _ _ => rfl) (fun q hq => ?_) ?_ ?_ fun q _ => h.waits q
  · rw [hdetaching, detaches_of_ne hq]
    exact detaches_idle q
  · have hrecord := h.record pid
    rw [hdetaching, detaches_self] at hrecord
    show PidRecord.Ok _ _ (EnrolObserver.idle.detaches pid)
    rw [detaches_idle]
    exact hrecord.exitDetach
  · exact ⟨(h.waits pid).queued, (h.waits pid).due⟩

theorem view_idle (p : UInt32) : EnrolWorker.idle.view p = .away := rfl

theorem Ok.dequeue (h : s.Ok) (hidle : s.worker = .idle) {pid : UInt32} {queue : List UInt32}
    (hqueue : s.queue = pid :: queue) : (s.dequeue pid queue).Ok := by
  have hwaits : ∀ q, q ≠ pid → (s.pids q).Waits q queue (s.taken + 1) := by
    intro q hq
    have hq' := h.waits q
    rw [hqueue] at hq'
    exact hq'.tail hq
  unfold LazyInterp.dequeue
  dsimp only
  split
  · next hstate =>
      refine h.of_update rfl (fun q hq => ?_) (fun _ _ => rfl) ?_ (PidRecord.waits_of_ne (by simp) rfl) hwaits
      · rw [hidle]
        exact if_neg (Ne.symm hq)
      · have hrecord := h.record pid
        rw [hidle, view_idle] at hrecord
        show PidRecord.Ok _ ((EnrolWorker.enrolling pid (s.pids pid).incarnation).view pid) _
        rw [EnrolWorker.view, if_pos rfl]
        exact hrecord.enroll hstate
  · next hstate =>
      refine ⟨h.record, fun q => ?_⟩
      by_cases hq : q = pid
      · subst hq
        exact PidRecord.waits_of_ne hstate ((h.waits q).due_eq_none hstate)
      · exact hwaits q hq

theorem Ok.enrollReturn (h : s.Ok) {pid : UInt32} {process : Nat} (hworker : s.worker = .enrolling pid process)
    {found : Bool} (hobserver : found = true → s.observer ≠ .detaching pid) :
    (s.enrollReturn pid process found).Ok := by
  have hrecord := h.record pid
  have hview : s.worker.view pid = .enrolling process := by
    rw [hworker]
    exact if_pos rfl
  have hother : ∀ (b : Bool) q, q ≠ pid → (EnrolWorker.returned pid process b).view q = s.worker.view q := by
    intro b q hq
    rw [hworker]
    exact (if_neg (Ne.symm hq)).trans (if_neg (Ne.symm hq)).symm
  have hself : ∀ b : Bool, (EnrolWorker.returned pid process b).view pid = .returned process b := fun b => if_pos rfl
  rw [hview] at hrecord
  unfold LazyInterp.enrollReturn
  split
  · next hfound =>
      have hdetaches : s.observer.detaches pid = false := decide_eq_false (hobserver hfound)
      refine h.of_update rfl (hother true) (fun _ _ => rfl) ?_ ⟨(h.waits pid).queued, (h.waits pid).due⟩
        fun q _ => h.waits q
      rw [hdetaches] at hrecord
      show PidRecord.Ok _ ((EnrolWorker.returned pid process true).view pid) (s.observer.detaches pid)
      rw [hself, hdetaches]
      exact hrecord.found
  · refine ⟨fun q => ?_, h.waits⟩
    by_cases hq : q = pid
    · subst hq
      show PidRecord.Ok _ ((EnrolWorker.returned q process false).view q) _
      rw [hself]
      exact hrecord.notFound
    · show PidRecord.Ok _ ((EnrolWorker.returned pid process false).view q) _
      rw [hother false q hq]
      exact h.record q

theorem Ok.recordEnrol (h : s.Ok) {process : Nat} {found : Bool} (hworker : s.worker = .returned pid process found) :
    (s.record pid found).Ok := by
  have hrecord := h.record pid
  have hview : s.worker.view pid = .returned process found := by
    rw [hworker]
    exact if_pos rfl
  have hother : ∀ q, q ≠ pid → s.worker.view q = .away := by
    intro q hq
    rw [hworker]
    exact if_neg (Ne.symm hq)
  rw [hview] at hrecord
  have hdue : (s.pids pid).due = none := by
    refine (h.waits pid).due_eq_none fun hqueued => ?_
    have haway := hrecord.away (by rw [hqueued]; simp) (by rw [hqueued]; simp)
    cases haway
  unfold LazyInterp.record
  dsimp only
  split
  · next hstate =>
      refine h.of_update rfl (fun q hq => ?_) (fun _ _ => rfl) ?_ (PidRecord.waits_of_ne (by simp) hdue)
        fun q _ => h.waits q
      · rw [hother q hq]
        cases found with
        | true => exact if_neg (Ne.symm hq)
        | false => rfl
      · have hexited := hrecord.recordExited hstate
        cases found with
        | true =>
          show PidRecord.Ok _ ((EnrolWorker.detaching pid).view pid) _
          rw [EnrolWorker.view, if_pos rfl]
          exact hexited
        | false => exact hexited
  · next hstate =>
      refine h.of_update rfl (fun q hq => (hother q hq).symm) (fun _ _ => rfl) (hrecord.record hstate)
        (PidRecord.waits_of_ne ?_ hdue) fun q _ => h.waits q
      cases found <;> simp

theorem Ok.enrolDetach (h : s.Ok) {pid : UInt32} (hworker : s.worker = .detaching pid) :
    Ok { s.detach pid with worker := .idle } := by
  refine h.of_update rfl (fun q hq => ?_) (fun _ _ => rfl) ?_ ⟨(h.waits pid).queued, (h.waits pid).due⟩
    fun q _ => h.waits q
  · rw [hworker]
    exact (if_neg (Ne.symm hq)).symm
  · have hrecord := h.record pid
    rw [hworker, EnrolWorker.view, if_pos rfl] at hrecord
    exact hrecord.enrolDetach

/-! ## Runs -/

structure Sound (s : LazyInterp) : Prop where
  /-- With no call in flight, modules hold state for what is recorded as claimed. -/
  held_claimed : s.worker = .idle → s.observer = .idle → ∀ p, (s.pids p).held ≠ none → (s.pids p).state = some .claimed
  /-- Nothing is held for a process that has exited. -/
  held_live : s.worker = .idle → s.observer = .idle → ∀ p n, (s.pids p).held = some n → n = (s.pids p).incarnation
  /-- A process that was recognised and has not exited is not detached. -/
  recognised_held : ∀ p, (s.pids p).recognised = some (s.pids p).incarnation →
    (s.pids p).held = some (s.pids p).incarnation
  /-- A process that was sampled after it mapped something executable is looked at, before all that was
  in the queue then has been taken. -/
  due_lt : ∀ p d, (s.pids p).due = some d → s.taken < d

def Timely (s : LazyInterp) : EnrolAction → Prop
  | .sampled pid => (s.pids pid).unlooked = true →
      (s.pids pid).state ≠ some .enrollingExited ∧ ((s.pids pid).state = none → s.queue.length < lazyEnrolQueue)
  | .mmap ev => ev.rearms = true → (s.pids ev.pid).state ≠ some .enrolling
  | .exit pid tid => tid = pid → (s.pids pid).state ≠ some .enrollingExited
  | .enrollReturn found => ∀ pid process, s.worker = .enrolling pid process → found = true →
      s.observer ≠ .detaching pid
  | _ => True

theorem Ok.sound (h : s.Ok) : s.Sound where
  held_claimed := by
    intro hworker hobserver p hheld
    obtain ⟨n, hn⟩ := Option.ne_none_iff_exists'.mp hheld
    have hrecord := h.record p
    rw [hworker, hobserver, detaches_idle, view_idle] at hrecord
    rcases hrecord.held n hn with hclaimed | hreturned | ⟨hbusy, -⟩
    · exact hclaimed
    · cases hreturned
    · rcases hbusy with hbusy | hbusy <;> cases hbusy
  held_live := by
    intro hworker hobserver p n hn
    have hrecord := h.record p
    rw [hworker, hobserver, detaches_idle, view_idle] at hrecord
    rcases hrecord.held n hn with hclaimed | hreturned | ⟨hbusy, -⟩
    · exact Option.some.inj (hn.symm.trans (hrecord.claimed hclaimed).2.2.1)
    · cases hreturned
    · rcases hbusy with hbusy | hbusy <;> cases hbusy
  recognised_held := by
    intro p hrecognised
    rcases (h.record p).recognised hrecognised with hclaimed | hreturned
    · exact ((h.record p).claimed hclaimed).2.2.1
    · exact ((h.record p).returned _ hreturned).2.1
  due_lt := by
    intro p d hd
    obtain ⟨-, i, -, hlt⟩ := (h.waits p).due d hd
    exact Nat.lt_of_le_of_lt (Nat.le_add_right _ i) hlt

theorem ok_step (h : s.Ok) (a : EnrolAction) (ha : s.Timely a) : (s.step a).Ok := by
  cases a with
  | sampled pid => exact h.sampled (fun hu => (ha hu).1) fun hu => (ha hu).2
  | mmap ev =>
    simp only [step]
    split
    · exact h.observeMmap ha
    · exact h
  | exit pid tid =>
    simp only [step]
    split
    · next hidle =>
        split
        · next htid => exact h.exited hidle (ha htid)
        · exact h
    · exact h
  | exitDetach =>
    simp only [step]
    split
    · exact h
    · next hdetaching => exact h.exitDetach hdetaching
  | dequeue =>
    simp only [step]
    split
    · next hidle hqueue => exact h.dequeue hidle hqueue
    · exact h
  | enrollReturn found =>
    simp only [step]
    split
    · next hworker => exact h.enrollReturn hworker (ha _ _ hworker)
    · exact h
  | record =>
    simp only [step]
    split
    · next hworker => exact h.recordEnrol hworker
    · exact h
  | enrolDetach =>
    simp only [step]
    split
    · next hworker => exact h.enrolDetach hworker
    · exact h

/-- In every run whose steps come at no bad time, enrolment neither leaks nor loses a process. -/
theorem enrolment_sound (as : List EnrolAction) (h : Along step Timely {} as) : (as.foldl step {}).Sound := by
  refine Ok.sound (Along.invariant (I := fun _ s => s.Ok) ?_ (fun _ s a hs ha => ok_step hs a ha) h)
  exact ⟨fun _ => PidRecord.ok_empty, fun _ => PidRecord.waits_of_ne (by simp) rfl⟩

/-- An executable mapping of `/a`. -/
def mapsCode (pid : UInt32) : EnrolAction := .mmap { pid := pid, prot := 4, filename := [47, 97] }

/-- A process is recognised and exits; its successor is not recognised, maps something and is sampled. -/
def recognisedThenForeign : List EnrolAction :=
  [.sampled 7, .dequeue, .enrollReturn true, .record, .exit 7 7, .exitDetach, .sampled 7, .dequeue,
    .enrollReturn false, .record, mapsCode 7, .sampled 7]

theorem enrolment_sound_recognisedThenForeign :
    ((recognisedThenForeign.foldl step {}).pids 7).due = some 3 ∧ (recognisedThenForeign.foldl step {}).taken < 3 := by
  refine ⟨rfl, (enrolment_sound recognisedThenForeign ?_).due_lt 7 3 rfl⟩
  have hobserver : ((({} : LazyInterp).step (.sampled 7)).step .dequeue).observer = .idle := rfl
  refine ⟨fun h => absurd h (by decide), trivial, fun _ _ _ _ h => ?_, trivial, fun _ => by decide, trivial,
    fun h => absurd h (by decide), trivial, fun _ _ _ h => absurd h (by decide), trivial, fun _ => by decide,
    fun _ => ⟨by decide, fun _ => by decide⟩, trivial⟩
  rw [hobserver] at h
  cases h

/-- `Detach` of a process comes after its successor was enrolled. -/
def lateDetach : List EnrolAction :=
  [.sampled 7, .dequeue, .enrollReturn true, .record, .exit 7 7, .sampled 7, .dequeue, .enrollReturn true, .record,
    .exitDetach]

/-- A process maps an interpreter while the worker is looking at it. -/
def mmapDuringEnroll : List EnrolAction :=
  [.sampled 7, .dequeue, mapsCode 7, .enrollReturn false, .record, .sampled 7]

/-- The successor has lost its state; the sample leads to nothing. -/
theorem not_sound_lateDetach : ¬ (lateDetach.foldl step {}).Sound ∧ ¬ (mmapDuringEnroll.foldl step {}).Sound := by
  refine ⟨fun h => ?_, fun h => ?_⟩
  · exact absurd (h.recognised_held 7 rfl) (by decide)
  · exact absurd (h.due_lt 7 1 rfl) (by decide)

end LazyInterp

end PerfAgent.Dwarfagent
