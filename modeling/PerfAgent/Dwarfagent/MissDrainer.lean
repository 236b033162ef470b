import Mathlib.Data.List.Basic
import Mathlib.Data.List.TakeWhile
import PerfAgent.Lib.Machine

/-!
# The drainer of CFI misses

`unwind/dwarfagent/miss_drainer.go`.  The kernel side puts an event into the ring for every miss that
it reports; one goroutine takes them out in that order, and tries to compile the table, unless it has
failed three times in a row for the pair of process id and table.

A process id is used by one process after the other.  Which one an event is from is in the model only:
the record in the ring has the number alone.
-/

namespace PerfAgent.Dwarfagent

open List Function

/-- `cfiMissKey`. -/
structure CfiMissKey where
  pid : UInt32
  tableID : UInt64
deriving DecidableEq

structure CfiMissEvent where
  pid : UInt32
  tableID : UInt64
  relPC : UInt64 := 0
  ktimeNs : UInt64 := 0
  /-- Which of the processes that have had the process id. -/
  incarnation : Nat := 0
deriving DecidableEq

def CfiMissEvent.key (e : CfiMissEvent) : CfiMissKey where
  pid := e.pid
  tableID := e.tableID

structure MissStats where
  received : Nat := 0
  deduped : Nat := 0
  resolved : Nat := 0
  droppedPIDGone : Nat := 0
  droppedNotMapped : Nat := 0
  droppedAttach : Nat := 0
  poisonedKeys : Nat := 0
  lastLatencyNs : UInt64 := 0
deriving DecidableEq

/-- How `resolveBinaryByTableID` ends, and `AttachCompileOnly` if it comes to that. -/
inductive CompileOutcome where
  | pidGone
  | tableNotMapped
  | resolveFailed
  | attachFailed
  | attached
deriving DecidableEq

/-- `compileForMiss` returns true. -/
def CompileOutcome.ok (o : CompileOutcome) : Bool := o = .attached

/-- What `compileForMiss` counts. -/
def MissStats.compiled (c : MissStats) : CompileOutcome → MissStats
  | .pidGone => { c with droppedPIDGone := c.droppedPIDGone + 1 }
  | .tableNotMapped => { c with droppedNotMapped := c.droppedNotMapped + 1 }
  | .resolveFailed => { c with droppedAttach := c.droppedAttach + 1 }
  | .attachFailed => { c with droppedAttach := c.droppedAttach + 1 }
  | .attached => { c with resolved := c.resolved + 1 }

def MissStats.poison (c : MissStats) (poisoned : Bool) : MissStats :=
  { c with poisonedKeys := if poisoned then c.poisonedKeys + 1 else c.poisonedKeys }

def MissStats.receive (c : MissStats) (e : CfiMissEvent) (nowNs : Option UInt64) : MissStats :=
  { c with
    received := c.received + 1
    lastLatencyNs :=
      match nowNs with
      | some now => if now ≥ e.ktimeNs then now - e.ktimeNs else c.lastLatencyNs
      | none => c.lastLatencyNs }

inductive MissEntry where
  | attempt (e : CfiMissEvent) (ok : Bool)
  | skip (e : CfiMissEvent)
deriving DecidableEq

structure MissDrainer where
  /-- How many processes have had the process id. -/
  incarnation : UInt32 → Nat := fun _ => 0
  /-- The oldest event first. -/
  ring : List CfiMissEvent := []
  inflight : List CfiMissKey := []
  /-- The map, read as zero where it has no entry. -/
  failures : CfiMissKey → Nat := fun _ => 0
  compiling : Option CfiMissEvent := none
  counters : MissStats := {}
  /-- What has become of the events, the last one first.  No step reads it. -/
  log : List MissEntry := []

namespace MissDrainer

inductive Action where
  | /-- The process ends, and another gets its number. -/ exit (pid : UInt32)
  | miss (e : CfiMissEvent)
  | /-- The drainer takes an event up to the attempt. -/ read (nowNs : Option UInt64)
  | /-- The attempt ends, and what is behind it. -/ compiled (o : CompileOutcome)

def settle (s : MissDrainer) (e : CfiMissEvent) (o : CompileOutcome) : MissDrainer :=
  let failures := if o.ok then 0 else s.failures e.key + 1
  { s with
    inflight := s.inflight.filter (· ≠ e.key)
    failures := update s.failures e.key failures
    compiling := none
    counters := (s.counters.compiled o).poison (o.ok = false ∧ failures ≥ 3)
    log := .attempt e o.ok :: s.log }

def step (s : MissDrainer) : Action → Option MissDrainer
  | .exit pid => some { s with incarnation := update s.incarnation pid (s.incarnation pid + 1) }
  | .miss e => if e.incarnation = s.incarnation e.pid then some { s with ring := s.ring ++ [e] } else none
  | .read nowNs =>
    match s.compiling, s.ring with
    | none, e :: ring =>
      let s := { s with ring := ring, counters := s.counters.receive e nowNs }
      if e.key ∈ s.inflight then
        some { s with counters := { s.counters with deduped := s.counters.deduped + 1 } }
      else if s.failures e.key ≥ 3 then
        -- poisoned
        some { s with log := .skip e :: s.log }
      else some { s with inflight := e.key :: s.inflight, compiling := some e }
    | _, _ => none
  | .compiled o =>
    match s.compiling with
    | some e => some (s.settle e o)
    | none => none

end MissDrainer

/-! ## What the drainer should do -/

/-- The attempts for a pair, the last one first: of which process, and whether it went well. -/
def attempts (key : CfiMissKey) (log : List MissEntry) : List (Nat × Bool) :=
  log.filterMap fun
    | .attempt e ok => if e.key = key then some (e.incarnation, ok) else none
    | .skip _ => none

def failed (key : CfiMissKey) (log : List MissEntry) : List (Nat × Bool) :=
  (attempts key log).takeWhile fun a => !a.2

/-- The last three attempts for the process of the event and its table have failed. -/
def LastThreeFailed (e : CfiMissEvent) (log : List MissEntry) : Prop :=
  (((attempts e.key log).filter fun a => a.1 = e.incarnation).take 3).map Prod.snd = [false, false, false]

instance (e : CfiMissEvent) (log : List MissEntry) : Decidable (LastThreeFailed e log) :=
  inferInstanceAs (Decidable (_ = _))

def SkipsEarned : List MissEntry → Prop
  | [] => True
  | .skip e :: older => LastThreeFailed e older ∧ SkipsEarned older
  | .attempt _ _ :: older => SkipsEarned older

def skipped (log : List MissEntry) : Nat :=
  log.countP fun
    | .skip _ => true
    | .attempt _ _ => false

namespace MissDrainer

/-- The drainer gives up on nobody else than the process that failed. -/
structure GivesUpRightly (s : MissDrainer) : Prop where
  skips : SkipsEarned s.log
  counts : ∀ key, s.failures key = (failed key s.log).length
  ledger : s.compiling = none → s.counters.received =
      s.counters.deduped + s.counters.resolved + s.counters.droppedPIDGone + s.counters.droppedNotMapped +
        s.counters.droppedAttach + skipped s.log

/-- The failures that an event would be skipped for are all of the event's own process. -/
def Meets (s : MissDrainer) : Action → Prop
  | .read _ => ∀ e ∈ s.ring.head?, 3 ≤ s.failures e.key → ∀ a ∈ failed e.key s.log, a.1 = e.incarnation
  | _ => True

end MissDrainer

/-! ## Three failures in a row -/

section Attempts

variable {key : CfiMissKey} {e : CfiMissEvent} {log : List MissEntry}

theorem attempts_attempt (ok : Bool) : attempts key (.attempt e ok :: log) =
      if e.key = key then (e.incarnation, ok) :: attempts key log else attempts key log := by
  unfold attempts
  rw [filterMap_cons]
  dsimp only
  split
  · next h =>
    split at h
    · cases h
    · next hne => rw [if_neg hne]
  · next h =>
    split at h
    · next heq =>
      cases h
      rw [if_pos heq]
    · cases h

@[simp] theorem attempts_skip : attempts key (.skip e :: log) = attempts key log := rfl

@[simp] theorem failed_skip : failed key (.skip e :: log) = failed key log := rfl

theorem failed_attempt (ok : Bool) :
    failed e.key (.attempt e ok :: log) = if ok then [] else (e.incarnation, false) :: failed e.key log := by
  unfold failed
  rw [attempts_attempt, if_pos rfl, takeWhile_cons]
  cases ok <;> rfl

theorem failed_attempt_of_ne (ok : Bool) (h : e.key ≠ key) : failed key (.attempt e ok :: log) = failed key log := by
  unfold failed
  rw [attempts_attempt, if_neg h]

/-- Three failures stand counted: they were all of the process of the event exactly if the last three
attempts for that process have failed, as no later process has tried yet. -/
theorem lastThreeFailed_iff (hcount : (failed e.key log).length = 3)
    (hsorted : (attempts e.key log).Pairwise fun a b => b.1 ≤ a.1)
    (hbound : ∀ a ∈ attempts e.key log, a.1 ≤ e.incarnation) :
    LastThreeFailed e log ↔ ∀ a ∈ failed e.key log, a.1 = e.incarnation := by
  have hfalse : ∀ a ∈ failed e.key log, a.2 = false := by
    intro a ha
    have := mem_takeWhile_imp ha
    rwa [Bool.not_eq_true'] at this
  have hsplit : attempts e.key log = failed e.key log ++ (attempts e.key log).dropWhile fun a => !a.2 :=
    takeWhile_append_dropWhile.symm
  obtain ⟨a, b, c, habc⟩ := length_eq_three.mp hcount
  generalize (attempts e.key log).dropWhile (fun a => !a.2) = rest at hsplit
  unfold LastThreeFailed
  rw [habc] at hfalse hsplit ⊢
  rw [hsplit] at hsorted hbound ⊢
  have hrest : ∀ x ∈ rest, x.1 ≤ c.1 := by
    have hc : (c :: rest).Pairwise fun a b => b.1 ≤ a.1 := by
      have := hsorted.tail.tail
      exact this
    exact (pairwise_cons.mp hc).1
  constructor
  · intro hlast
    -- an earlier process has had the third one, and then what is left of this process is too little
    have hthird : c.1 = e.incarnation := by
      by_contra hne
      have hlt : c.1 < e.incarnation := Nat.lt_of_le_of_ne (hbound c (by simp)) hne
      have hnone : (c :: rest).filter (fun a => a.1 = e.incarnation) = [] := by
        rw [filter_eq_nil_iff]
        intro x hx
        rcases mem_cons.mp hx with rfl | hx
        · simpa using hne
        · have := hrest x hx
          have hne' : x.1 ≠ e.incarnation := by omega
          simpa using hne'
      have hlength := congrArg List.length hlast
      have hfew : ([a, b].filter fun a => a.1 = e.incarnation).length ≤ 2 := length_filter_le _ _
      rw [show [a, b, c] ++ rest = [a, b] ++ c :: rest from rfl, filter_append, hnone, append_nil,
        length_map, length_take] at hlength
      have hthree : [false, false, false].length = 3 := rfl
      omega
    have hle := (pairwise_cons.mp hsorted).1
    have hle' := (pairwise_cons.mp hsorted.tail).1
    have hca := hle c (by simp)
    have hcb := hle' c (by simp)
    have ha := hbound a (by simp)
    have hb := hbound b (by simp)
    intro x hx
    rcases mem_cons.mp hx with rfl | hx
    · omega
    rcases mem_cons.mp hx with rfl | hx
    · omega
    · rw [mem_singleton.mp hx]
      exact hthird
  · intro hall
    have ha := hall a (by simp)
    have hb := hall b (by simp)
    have hc := hall c (by simp)
    have hfa := hfalse a (by simp)
    have hfb := hfalse b (by simp)
    have hfc := hfalse c (by simp)
    simp [ha, hb, hc, hfa, hfb, hfc]

end Attempts

/-! ## Runs -/

namespace MissDrainer

def pending (s : MissDrainer) : List CfiMissEvent := s.compiling.toList ++ s.ring

structure Ok (s : MissDrainer) : Prop where
  inflight : s.inflight = s.compiling.toList.map CfiMissEvent.key
  failures_le : ∀ key, s.failures key ≤ 3
  failures_lt : ∀ e ∈ s.compiling, s.failures e.key < 3
  counts : ∀ key, s.failures key = (failed key s.log).length
  received : s.counters.received =
      s.counters.deduped + s.counters.resolved + s.counters.droppedPIDGone + s.counters.droppedNotMapped +
        s.counters.droppedAttach + skipped s.log + s.compiling.toList.length
  -- the processes of a process id come one after the other
  sorted : ∀ key, (attempts key s.log).Pairwise fun a b => b.1 ≤ a.1
  tried : ∀ key, ∀ a ∈ attempts key s.log, a.1 ≤ s.incarnation key.pid
  inOrder : s.pending.Pairwise fun e e' => e.pid = e'.pid → e.incarnation ≤ e'.incarnation
  bound : ∀ e ∈ s.pending, ∀ a ∈ attempts e.key s.log, a.1 ≤ e.incarnation
  current : ∀ e ∈ s.pending, e.incarnation ≤ s.incarnation e.pid

theorem Ok.initial : Ok {} := by
  constructor
  case sorted => exact fun _ => .nil
  case inOrder => exact .nil
  case tried => exact fun _ _ h => by cases h
  case bound => exact fun _ h => by cases h
  case current => exact fun _ h => by cases h
  case failures_lt => exact fun _ h => by cases h
  case failures_le => exact fun _ => Nat.zero_le _
  all_goals intros; rfl

/-- All but the skips is as it should be in any state. -/
theorem Ok.givesUp_iff {s : MissDrainer} (h : s.Ok) : s.GivesUpRightly ↔ SkipsEarned s.log := by
  constructor
  · exact fun hs => hs.skips
  · intro hs
    refine ⟨hs, h.counts, fun hnone => ?_⟩
    have := h.received
    rw [hnone] at this
    exact this

theorem Ok.exit {s : MissDrainer} (h : s.Ok) (pid : UInt32) :
    Ok { s with incarnation := update s.incarnation pid (s.incarnation pid + 1) } := by
  have hle : ∀ p, s.incarnation p ≤ update s.incarnation pid (s.incarnation pid + 1) p := by
    intro p
    by_cases hp : p = pid
    · subst hp
      rw [update_self]
      exact Nat.le_succ _
    · rw [update_of_ne hp]
  exact
    { h with
      tried := fun key a ha => Nat.le_trans (h.tried key a ha) (hle _)
      current := fun e he => Nat.le_trans (h.current e he) (hle _) }

theorem Ok.miss {s : MissDrainer} (h : s.Ok) {e : CfiMissEvent} (he : e.incarnation = s.incarnation e.pid) :
    Ok { s with ring := s.ring ++ [e] } := by
  have hpending : ∀ e', e' ∈ MissDrainer.pending { s with ring := s.ring ++ [e] } → e' ∈ s.pending ∨ e' = e := by
    intro e' he'
    unfold pending at he' ⊢
    rw [← append_assoc] at he'
    rcases mem_append.mp he' with he' | he'
    · exact .inl he'
    · exact .inr (mem_singleton.mp he')
  refine { h with inOrder := ?_, bound := ?_, current := ?_ }
  · show (s.compiling.toList ++ (s.ring ++ [e])).Pairwise _
    rw [← append_assoc]
    refine pairwise_append.mpr ⟨h.inOrder, pairwise_singleton _ _, fun e' he' e'' he'' hpid => ?_⟩
    rw [mem_singleton.mp he''] at hpid ⊢
    rw [he, ← hpid]
    exact h.current e' he'
  · intro e' he' a ha
    rcases hpending e' he' with he' | rfl
    · exact h.bound e' he' a ha
    · rw [he]
      exact h.tried _ a ha
  · intro e' he'
    rcases hpending e' he' with he' | rfl
    · exact h.current e' he'
    · exact Nat.le_of_eq he

theorem Ok.skip {s : MissDrainer} (h : s.Ok) (hnone : s.compiling = none) {e : CfiMissEvent}
    {ring : List CfiMissEvent} (hring : s.ring = e :: ring) (nowNs : Option UInt64) :
    Ok { s with ring := ring, counters := s.counters.receive e nowNs, log := .skip e :: s.log } := by
  have hpending : s.pending = e :: ring := by
    rw [pending, hnone, hring]
    rfl
  have horder := h.inOrder
  have hbound := h.bound
  have hcurrent := h.current
  have hreceived := h.received
  rw [hpending] at horder hbound hcurrent
  have hrest : MissDrainer.pending
      { s with ring := ring, counters := s.counters.receive e nowNs, log := .skip e :: s.log } = ring := by
    rw [pending, hnone]
    rfl
  refine { h with received := ?_, inOrder := ?_, bound := ?_, current := ?_ }
  · have hskip : skipped (.skip e :: s.log) = skipped s.log + 1 := countP_cons_of_pos rfl
    show s.counters.received + 1 = s.counters.deduped + s.counters.resolved + s.counters.droppedPIDGone +
      s.counters.droppedNotMapped + s.counters.droppedAttach + skipped (.skip e :: s.log) + s.compiling.toList.length
    omega
  · rw [hrest]
    exact horder.tail
  · rw [hrest]
    exact fun e' he' => hbound e' (mem_cons_of_mem _ he')
  · rw [hrest]
    exact fun e' he' => hcurrent e' (mem_cons_of_mem _ he')

theorem Ok.attempt {s : MissDrainer} (h : s.Ok) (hnone : s.compiling = none) {e : CfiMissEvent}
    {ring : List CfiMissEvent} (hring : s.ring = e :: ring) (hlt : s.failures e.key < 3) (nowNs : Option UInt64) :
    Ok
      { s with
        ring := ring
        counters := s.counters.receive e nowNs
        inflight := e.key :: s.inflight
        compiling := some e } := by
  have hpending : s.pending = e :: ring := by
    rw [pending, hnone, hring]
    rfl
  have horder := h.inOrder
  have hbound := h.bound
  have hcurrent := h.current
  have hinflight := h.inflight
  have hreceived := h.received
  rw [hpending] at horder hbound hcurrent
  rw [hnone] at hinflight hreceived
  refine { h with
    inflight := ?_, failures_lt := ?_, received := ?_, inOrder := horder, bound := hbound, current := hcurrent }
  · rw [hinflight]
    rfl
  · rintro e' ⟨⟩
    exact hlt
  · exact congrArg (· + 1) hreceived

theorem settle_log (s : MissDrainer) (e : CfiMissEvent) (o : CompileOutcome) :
    (s.settle e o).log = .attempt e o.ok :: s.log := rfl

theorem Ok.counts_settle {s : MissDrainer} (h : s.Ok) (e : CfiMissEvent) (o : CompileOutcome) (key : CfiMissKey) :
    (s.settle e o).failures key = (failed key (s.settle e o).log).length := by
  have hupdate : (s.settle e o).failures = update s.failures e.key (if o.ok then 0 else s.failures e.key + 1) := rfl
  rw [hupdate, settle_log]
  by_cases hkey : key = e.key
  · subst hkey
    rw [update_self, failed_attempt, h.counts]
    split
    · rfl
    · rfl
  · rw [update_of_ne hkey, failed_attempt_of_ne _ (Ne.symm hkey)]
    exact h.counts key

theorem Ok.settle {s : MissDrainer} (h : s.Ok) {e : CfiMissEvent} (hsome : s.compiling = some e) (o : CompileOutcome) :
    (s.settle e o).Ok := by
  have hpending : s.pending = e :: s.ring := by
    rw [pending, hsome]
    rfl
  have hrest : (s.settle e o).pending = s.ring := rfl
  have hlt : s.failures e.key < 3 := h.failures_lt e hsome
  have horder := h.inOrder
  have hbound := h.bound
  have hcurrent := h.current
  have hinflight := h.inflight
  have hreceived := h.received
  rw [hpending] at horder hbound hcurrent
  rw [hsome] at hinflight hreceived
  obtain ⟨hfirst, horder⟩ := pairwise_cons.mp horder
  obtain ⟨hlast, hbound⟩ := forall_mem_cons.mp hbound
  obtain ⟨hnow, hcurrent⟩ := forall_mem_cons.mp hcurrent
  refine ⟨?_, ?_, fun _ he => (Option.not_mem_none _ he).elim, h.counts_settle e o, ?_, ?_, ?_, ?_, ?_, ?_⟩
  · show s.inflight.filter (· ≠ e.key) = []
    rw [hinflight]
    simp
  · intro key
    show update s.failures e.key (if o.ok then 0 else s.failures e.key + 1) key ≤ 3
    by_cases hkey : key = e.key
    · subst hkey
      rw [update_self]
      split
      · exact Nat.zero_le _
      · omega
    · rw [update_of_ne hkey]
      exact h.failures_le key
  · have hcounters : ∃ poisoned, (s.settle e o).counters = (s.counters.compiled o).poison poisoned := ⟨_, rfl⟩
    obtain ⟨poisoned, hcounters⟩ := hcounters
    have hskipped : skipped (.attempt e o.ok :: s.log) = skipped s.log := countP_cons_of_neg Bool.false_ne_true
    have hnone : (s.settle e o).compiling.toList.length = 0 := rfl
    have hone : (some e).toList.length = 1 := rfl
    rw [hone] at hreceived
    rw [hcounters, settle_log, hskipped, hnone]
    cases o <;> simp only [MissStats.compiled, MissStats.poison] <;> omega
  · intro key
    rw [settle_log, attempts_attempt]
    split
    · next heq =>
      subst heq
      exact pairwise_cons.mpr ⟨hlast, h.sorted _⟩
    · exact h.sorted key
  · intro key a ha
    rw [settle_log, attempts_attempt] at ha
    split at ha
    · next heq =>
      subst heq
      rcases mem_cons.mp ha with rfl | ha
      · exact hnow
      · exact h.tried _ a ha
    · exact h.tried key a ha
  · rw [hrest]
    exact horder
  · rw [hrest]
    intro e' he' a ha
    rw [settle_log, attempts_attempt] at ha
    split at ha
    · next heq =>
      rcases mem_cons.mp ha with rfl | ha
      · exact hfirst e' he' (congrArg CfiMissKey.pid heq)
      · exact hbound e' he' a ha
    · exact hbound e' he' a ha
  · rw [hrest]
    exact hcurrent

theorem Ok.step {s s' : MissDrainer} (h : s.Ok) {a : Action} (ha : s.step a = some s') :
    s'.Ok ∧ (s'.GivesUpRightly ↔ s.GivesUpRightly ∧ s.Meets a) := by
  have hkeep : s'.Ok → (SkipsEarned s'.log ↔ SkipsEarned s.log) → s.Meets a →
      s'.Ok ∧ (s'.GivesUpRightly ↔ s.GivesUpRightly ∧ s.Meets a) := by
    intro hok hlog hmeets
    refine ⟨hok, ?_⟩
    rw [hok.givesUp_iff, h.givesUp_iff, and_iff_left hmeets]
    exact hlog
  cases a with
  | exit pid =>
    cases ha
    exact hkeep (h.exit pid) Iff.rfl trivial
  | miss e =>
    rw [MissDrainer.step] at ha
    split at ha
    · next he =>
      cases ha
      exact hkeep (h.miss he) Iff.rfl trivial
    · cases ha
  | compiled o =>
    rw [MissDrainer.step] at ha
    split at ha
    · next e hsome =>
      cases ha
      exact hkeep (h.settle hsome o) Iff.rfl trivial
    · cases ha
  | read nowNs =>
    rw [MissDrainer.step] at ha
    split at ha
    · next e ring hnone hring =>
      dsimp only at ha
      have hinflight : s.inflight = [] := by
        rw [h.inflight, hnone]
        rfl
      have hnot : e.key ∉ s.inflight := by
        rw [hinflight]
        exact not_mem_nil
      rw [if_neg hnot] at ha
      have hmeets : s.Meets (.read nowNs) ↔ (3 ≤ s.failures e.key → ∀ a ∈ failed e.key s.log, a.1 = e.incarnation) := by
        rw [Meets, hring]
        exact ⟨fun hall => hall e rfl, fun hone e' he' => by cases he'; exact hone⟩
      split at ha
      · next hpoisoned =>
        cases ha
        have hok := h.skip hnone hring nowNs
        have hpending : e ∈ s.pending := by
          rw [pending, hnone, hring]
          exact mem_cons_self
        have hcount : (failed e.key s.log).length = 3 := by
          rw [← h.counts]
          exact Nat.le_antisymm (h.failures_le _) hpoisoned
        have hlast := lastThreeFailed_iff hcount (h.sorted _) (h.bound e hpending)
        refine ⟨hok, ?_⟩
        rw [hok.givesUp_iff, h.givesUp_iff, hmeets]
        show LastThreeFailed e s.log ∧ SkipsEarned s.log ↔ _
        rw [hlast, and_comm]
        exact and_congr_right fun _ => ⟨fun hall _ => hall, fun hall => hall hpoisoned⟩
      · next hlt =>
        cases ha
        have hok := h.attempt hnone hring (Nat.lt_of_not_le hlt) nowNs
        exact hkeep hok Iff.rfl (hmeets.mpr fun hge => absurd hge hlt)
    · cases ha

theorem givesUpRightly_initial : GivesUpRightly {} :=
  Ok.initial.givesUp_iff.mpr trivial

/-- In every run the drainer gives up on nobody else than the process that failed exactly if no event
comes out of the ring for a pair that has failed three times for other processes too. -/
theorem givesUpRightly_iff {as : List Action} {s : MissDrainer}
    (h : Run (fun s a s' => MissDrainer.step s a = some s') {} as s) :
    s.GivesUpRightly ↔ Run (fun s a s' => Meets s a ∧ MissDrainer.step s a = some s') {} as s :=
  h.iff_guarded (I := Ok) (G := GivesUpRightly) (P := Meets) .initial givesUpRightly_initial
    fun _ _ _ hs ha => hs.step ha

def failedMiss : List Action := [.miss { pid := 7, tableID := 1 }, .read none, .compiled .attachFailed]

theorem givesUpRightly_iff_sameProcess : ∃ s, Run (fun s a s' => MissDrainer.step s a = some s') {}
        (failedMiss ++ failedMiss ++ failedMiss ++ [.miss { pid := 7, tableID := 1 }, .read none]) s ∧
      skipped s.log = 1 ∧
      (s.GivesUpRightly ↔ Run (fun s a s' => Meets s a ∧ MissDrainer.step s a = some s') {}
          (failedMiss ++ failedMiss ++ failedMiss ++ [.miss { pid := 7, tableID := 1 }, .read none]) s) := by
  obtain ⟨s, hs, hp⟩ := @exists_run _ _ MissDrainer.step {}
    (failedMiss ++ failedMiss ++ failedMiss ++ [.miss { pid := 7, tableID := 1 }, .read none])
    (fun s => decide (skipped s.log = 1)) (by decide)
  exact ⟨s, hs, of_decide_eq_true hp, givesUpRightly_iff hs⟩

/-- The process ends, and another one with its number has a miss for the table. -/
theorem not_givesUpRightly : ¬∀ (as : List Action) (s : MissDrainer),
      Run (fun s a s' => MissDrainer.step s a = some s') {} as s → s.GivesUpRightly := by
  intro h
  let reused : CfiMissEvent := { pid := 7, tableID := 1, incarnation := 1 }
  obtain ⟨s, hs, hp⟩ := @exists_run _ _ MissDrainer.step {}
    (failedMiss ++ failedMiss ++ failedMiss ++ [.exit 7, .miss reused, .read none])
    (fun s => decide (s.log = .skip reused :: List.replicate 3 (.attempt { pid := 7, tableID := 1 } false))) (by decide)
  have hskips := (h _ s hs).skips
  rw [of_decide_eq_true hp] at hskips
  exact absurd hskips.1 (by decide)

end MissDrainer

end PerfAgent.Dwarfagent
