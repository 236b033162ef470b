import PerfAgent.Metrics.Exporter
import PerfAgent.Lib.Machine

/-!
# Every point is accounted for

The points of a reading are counted when its request ends, when it is dropped, or when a later reading of the device
takes its place.  The first two count what `payload` emits.  The last counts the values, and forgets that a reading
with a driver version has one point more.

The worker leaves its loop with nothing pending, since it takes what is pending after `closing` was set.  It does not
if the context ends after it has taken a batch that was not the last, and before it looks at the context: it drops the
batch and leaves, and what was accepted since then stays.

Both are put as conditions on the steps, and in a run that meets them the books balance in every state.
-/

namespace PerfAgent.Metrics

open List

open Pprof (ascii)

variable {F : Type}

/-! ## Points -/

section Points

variable [One F]

def emitted (metrics : List (Metric F)) : ℕ := (metrics.map fun m => m.points.length).sum

/-- How many points `payload` emits for a reading. -/
def Reading.points (r : Reading F) : ℕ := emitted (payload [r]).1

variable {ps : Points F} (batch : List (Reading F))

namespace Points

def Counted (ps : Points F) : Prop := ps.count = ps.infos.length + ps.grouped.sum List.length

omit [One F] in
theorem counted_empty : ({} : Points F).Counted := rfl

theorem Counted.addInfo {ps : Points F} (h : ps.Counted) (d : Device F) : (ps.addInfo d).Counted := by
  unfold Points.addInfo
  split
  · exact h
  · unfold Counted at h ⊢
    simp only [List.length_append, length_singleton]
    omega

omit [One F] in
theorem Counted.addValue {ps : Points F} (h : ps.Counted) (d : Device F) (v : Sigma fun _ : Text => F) :
    (ps.addValue d v).Counted := by
  unfold Counted at h ⊢
  unfold Points.addValue
  simp only [AssocMap.sum_put, List.length_append, length_singleton]
  cases hv : ps.grouped.find? v.1 with
  | none =>
    rw [AssocMap.del_of_find?_eq_none hv]
    simp only [Option.getD_none, length_nil]
    omega
  | some points =>
    rw [AssocMap.sum_of_find? List.length hv] at h
    simp only [Option.getD_some]
    omega

@[simp] theorem addInfo_count (ps : Points F) (d : Device F) :
    (ps.addInfo d).count = ps.count + if d.driverVersion = [] then 0 else 1 := by
  unfold Points.addInfo
  split <;> rfl

omit [One F] in
theorem addValues_spec (d : Device F) (vs : List (Sigma fun _ : Text => F)) (h : ps.Counted) :
    (vs.foldl (Points.addValue d) ps).Counted ∧ (vs.foldl (Points.addValue d) ps).count = ps.count + vs.length := by
  induction vs generalizing ps with
  | nil => exact ⟨h, rfl⟩
  | cons v vs ih =>
    obtain ⟨hcounted, hcount⟩ := ih (h.addValue d v)
    refine ⟨hcounted, hcount.trans ?_⟩
    change ps.count + 1 + vs.length = ps.count + (vs.length + 1)
    omega

theorem addReading_spec (h : ps.Counted) (r : Reading F) : (ps.addReading r).Counted ∧
    (ps.addReading r).count = ps.count + (r.device.values.size + if r.device.driverVersion = [] then 0 else 1) := by
  obtain ⟨hcounted, hcount⟩ := addValues_spec r.device r.device.values.entries (h.addInfo r.device)
  refine ⟨hcounted, hcount.trans ?_⟩
  rw [addInfo_count]
  unfold AssocMap.size
  omega

theorem addReadings_spec (h : ps.Counted) : (batch.foldl Points.addReading ps).Counted ∧
    (batch.foldl Points.addReading ps).count = ps.count +
      (batch.map fun r => r.device.values.size + if r.device.driverVersion = [] then 0 else 1).sum := by
  induction batch generalizing ps with
  | nil => exact ⟨h, rfl⟩
  | cons r batch ih =>
    obtain ⟨hr, hcount⟩ := addReading_spec h r
    obtain ⟨hbatch, hcount'⟩ := ih hr
    refine ⟨hbatch, hcount'.trans ?_⟩
    rw [map_cons, sum_cons, hcount]
    omega

end Points

theorem emitted_payload : emitted (payload batch).1 = (payload batch).2 := by
  obtain ⟨hcounted, -⟩ := Points.addReadings_spec batch Points.counted_empty
  unfold payload emitted
  generalize batch.foldl Points.addReading {} = ps at hcounted ⊢
  have hgrouped : ((ps.grouped.entries.map fun g =>
      ({ definition := (definition? g.1).getD {}, points := g.2 } : Metric F)).map fun m => m.points.length).sum =
      ps.grouped.sum List.length := by
    unfold AssocMap.sum AssocMap.values
    rw [map_map, map_map]
    rfl
  simp only [map_append, sum_append]
  rw [hgrouped, hcounted]
  split
  · next hinfos =>
      rw [hinfos]
      rfl
  · rfl

theorem Reading.points_eq (r : Reading F) :
    r.points = r.device.values.size + if r.device.driverVersion = [] then 0 else 1 := by
  unfold Reading.points
  rw [emitted_payload]
  exact (Points.addReading_spec Points.counted_empty r).2.trans (Nat.zero_add _)

theorem payload_count : (payload batch).2 = (batch.map Reading.points).sum := by
  rw [map_congr_left fun r _ => Reading.points_eq r]
  exact (Points.addReadings_spec batch Points.counted_empty).2.trans (Nat.zero_add _)

end Points

/-! ## What a call accepts -/

def superseded : AssocMap Text (Reading F) → List (Reading F) → List (Reading F)
  | _, [] => []
  | pending, r :: rs => (pending.find? r.device.uuid).toList ++ superseded (pending.put r.device.uuid r) rs

def putAll (pending : AssocMap Text (Reading F)) (rs : List (Reading F)) : AssocMap Text (Reading F) :=
  rs.foldl (fun p r => p.put r.device.uuid r) pending

theorem superseded_append (pending : AssocMap Text (Reading F)) (rs rs' : List (Reading F)) :
    superseded pending (rs ++ rs') = superseded pending rs ++ superseded (putAll pending rs) rs' := by
  induction rs generalizing pending with
  | nil => rfl
  | cons r rs ih =>
    rw [cons_append, superseded, superseded, ih, append_assoc]
    rfl

theorem superseded_perm (pending : AssocMap Text (Reading F)) (rs : List (Reading F)) :
    (pending.values ++ rs).Perm (superseded pending rs ++ (putAll pending rs).values) := by
  induction rs generalizing pending with
  | nil =>
    rw [append_nil]
    exact List.Perm.refl _
  | cons r rs ih =>
    have hput : (pending.values ++ [r]).Perm
        ((pending.find? r.device.uuid).toList ++ (pending.put r.device.uuid r).values) := by
      change List.Perm _ ((pending.find? r.device.uuid).toList ++ r :: (pending.del r.device.uuid).values)
      cases hold : pending.find? r.device.uuid with
      | none =>
        rw [AssocMap.del_of_find?_eq_none hold]
        exact perm_append_comm
      | some old =>
        have hvalues := (AssocMap.entries_perm_of_find? hold).map Sigma.snd
        exact (hvalues.append_right [r]).trans (List.Perm.cons _ perm_append_comm)
    rw [append_cons, superseded]
    refine (hput.append_right rs).trans ?_
    rw [append_assoc, append_assoc]
    exact (ih _).append_left _

/-- What accepting readings does to the exporter, and refusing others. -/
structure Effect (e e' : Exporter F) (rs : List (Reading F)) (refused : ℕ) : Prop where
  pending : e'.pending = putAll e.pending rs
  coalesced : e'.stats.coalescedPoints =
    e.stats.coalescedPoints + ((superseded e.pending rs).map fun r => r.device.values.size).sum
  dropped : e'.stats.droppedPoints = e.stats.droppedPoints + refused
  sent : e'.stats.sentPoints = e.stats.sentPoints
  failed : e'.stats.failedPoints = e.stats.failedPoints
  closing : e'.closing = e.closing
  cancelled : e'.cancelled = e.cancelled

namespace Effect

variable {e e' e'' : Exporter F} {rs rs' : List (Reading F)} {n n' : ℕ}

theorem refl (e : Exporter F) : Effect e e [] 0 := ⟨rfl, rfl, rfl, rfl, rfl, rfl, rfl⟩

theorem trans (h : Effect e e' rs n) (h' : Effect e' e'' rs' n') : Effect e e'' (rs ++ rs') (n + n') where
  pending := by
    rw [h'.pending, h.pending]
    exact (foldl_append ..).symm
  coalesced := by
    rw [h'.coalesced, h.coalesced, superseded_append, h.pending, map_append, sum_append, Nat.add_assoc]
  dropped := by rw [h'.dropped, h.dropped, Nat.add_assoc]
  sent := h'.sent.trans h.sent
  failed := h'.failed.trans h.failed
  closing := h'.closing.trans h.closing
  cancelled := h'.cancelled.trans h.cancelled

end Effect

section Enqueue

variable [Zero F] [One F]

theorem withState_size (r : Reading F) : r.withState.device.values.size ≠ 0 := by
  change (AssocMap.put _ _ _).size ≠ 0
  rw [AssocMap.size_put]
  exact Nat.succ_ne_zero _

theorem effect_enqueue (e : Exporter F) (r : Reading F) : Effect e (e.enqueue r) [r.withState] 0 := by
  have hstats : ∀ old : Option (Reading F), e.stats.coalesce old =
      { e.stats with
        coalescedPoints := e.stats.coalescedPoints + (old.toList.map fun r => r.device.values.size).sum } := by
    intro old
    cases old <;> rfl
  have henqueue : (e.enqueue r).stats = e.stats.coalesce (e.pending.find? r.device.uuid) := rfl
  refine ⟨rfl, ?_, ?_, ?_, ?_, rfl, rfl⟩
  · rw [henqueue, hstats, superseded, superseded, append_nil]
    rfl
  · rw [henqueue, hstats, Nat.add_zero]
  · rw [henqueue, hstats]
  · rw [henqueue, hstats]

theorem effect_enqueueMissing (e : Exporter F) (uuids : List Text) (timestamp : ℕ) (reason : Reason) :
    Effect e (uuids.foldl (fun e uuid => e.enqueue (noReading uuid timestamp reason)) e)
      (uuids.map fun uuid => (noReading uuid timestamp reason).withState) 0 := by
  induction uuids generalizing e with
  | nil => exact .refl e
  | cons uuid uuids ih => exact (effect_enqueue e _).trans (ih _)

def missingReadings (e : Exporter F) (s : Snapshot F) : List (Reading F) :=
  match s.kind with
  | .unavailable => (e.missing []).map fun uuid => (noReading uuid s.timestamp .sourceUnavailable).withState
  | .initial =>
    (e.missing (s.devices.map fun d => d.1.uuid)).map fun uuid =>
      (noReading uuid s.timestamp .notPresent).withState
  | _ => []

theorem effect_exportKind (e : Exporter F) (s : Snapshot F) :
    Effect e (e.exportKind s) (missingReadings e s) 0 ∧ (e.exportKind s).files = e.files := by
  have hfiles : ∀ (uuids : List Text) (timestamp : ℕ) (reason : Reason) (e : Exporter F),
      (uuids.foldl (fun e uuid => e.enqueue (noReading uuid timestamp reason)) e).files = e.files := by
    intro uuids timestamp reason
    induction uuids with
    | nil => exact fun _ => rfl
    | cons uuid uuids ih => exact fun e => ih _
  unfold Exporter.exportKind missingReadings
  cases s.kind with
  | unavailable =>
    have hrecord : Effect e { e with stats.unavailableRecords := e.stats.unavailableRecords + 1 } [] 0 :=
      ⟨rfl, rfl, rfl, rfl, rfl, rfl, rfl⟩
    exact ⟨hrecord.trans (effect_enqueueMissing _ _ _ _), hfiles _ _ _ _⟩
  | initial => exact ⟨effect_enqueueMissing _ _ _ _, hfiles _ _ _ _⟩
  | sample => exact ⟨.refl e, rfl⟩
  | final => exact ⟨.refl e, rfl⟩
  | other => exact ⟨.refl e, rfl⟩

end Enqueue

section Export

variable [Zero F] [One F] [NatCast F] (finite : F → Bool)

/-- A device of a snapshot: the files afterwards, the reading that is accepted, and the points that are dropped. -/
def arrival (files : AssocMap Text Bool) (d : Device F × LockAnswer) : AssocMap Text Bool × List (Reading F) × ℕ :=
  if d.1.uuid = [] ∨ d.1.timestamp = 0 then (files, [], (d.1.supported finite).size)
  else
    match acquire files d.1.uuid d.2 with
    | (files, none) => (files, [], (d.1.supported finite).size)
    | (files, some false) => (files, [], 0)
    | (files, some true) => (files, [(d.1.reading finite).withState], 0)

def arrivals : AssocMap Text Bool → List (Device F × LockAnswer) → List (Reading F) × ℕ
  | _, [] => ([], 0)
  | files, d :: ds =>
    let (files, rs, refused) := arrival finite files d
    let (rs', refused') := arrivals files ds
    (rs ++ rs', refused + refused')

theorem effect_exportDevice (e : Exporter F) (d : Device F × LockAnswer) :
    Effect e (e.exportDevice finite d) (arrival finite e.files d).2.1 (arrival finite e.files d).2.2 ∧
    (e.exportDevice finite d).files = (arrival finite e.files d).1 := by
  unfold Exporter.exportDevice arrival
  by_cases hzero : d.1.uuid = [] ∨ d.1.timestamp = 0
  · simp only [if_pos hzero, and_true]
    exact ⟨rfl, rfl, rfl, rfl, rfl, rfl, rfl⟩
  · simp only [if_neg hzero]
    rcases acquire e.files d.1.uuid d.2 with ⟨files, _ | _ | _⟩
    · exact ⟨⟨rfl, rfl, rfl, rfl, rfl, rfl, rfl⟩, rfl⟩
    · exact ⟨⟨rfl, rfl, rfl, rfl, rfl, rfl, rfl⟩, rfl⟩
    · have hfiles : Effect e { e with files := files } [] 0 := ⟨rfl, rfl, rfl, rfl, rfl, rfl, rfl⟩
      exact ⟨hfiles.trans (effect_enqueue _ _), rfl⟩

theorem effect_exportDevices (ds : List (Device F × LockAnswer)) (e : Exporter F) :
    Effect e (ds.foldl (Exporter.exportDevice finite) e) (arrivals finite e.files ds).1
      (arrivals finite e.files ds).2 := by
  induction ds generalizing e with
  | nil => exact .refl e
  | cons d ds ih =>
    obtain ⟨hd, hfiles⟩ := effect_exportDevice finite e d
    have hds := ih (e.exportDevice finite d)
    rw [hfiles] at hds
    exact hd.trans hds

def acceptedReadings (e : Exporter F) (s : Snapshot F) : List (Reading F) :=
  missingReadings e s ++ (arrivals finite e.files s.devices).1

theorem exportSnapshot_spec {e : Exporter F} {s : Snapshot F} (hkind : s.kind ≠ .other) (hclosing : e.closing = false) :
    ∃ e', e.exportSnapshot finite s = .ok e' ∧
      Effect e e' (acceptedReadings finite e s) (arrivals finite e.files s.devices).2 := by
  obtain ⟨hmissing, hfiles⟩ := effect_exportKind e s
  have hdevices := effect_exportDevices finite s.devices (e.exportKind s)
  rw [hfiles] at hdevices
  have heffect := hmissing.trans hdevices
  rw [Nat.zero_add] at heffect
  refine ⟨{ s.devices.foldl (Exporter.exportDevice finite) (e.exportKind s) with wake := true }, ?_, ?_⟩
  · unfold Exporter.exportSnapshot
    rw [if_neg hkind, hclosing]
    rfl
  · exact ⟨heffect.pending, heffect.coalesced, heffect.dropped, heffect.sent, heffect.failed, heffect.closing,
      heffect.cancelled⟩

theorem acceptedReadings_size (e : Exporter F) (s : Snapshot F) :
    ∀ r ∈ acceptedReadings finite e s, r.device.values.size ≠ 0 := by
  have hmissing : ∀ r ∈ missingReadings e s, r.device.values.size ≠ 0 := by
    intro r hr
    unfold missingReadings at hr
    cases hkind : s.kind <;> rw [hkind] at hr
    case unavailable | initial =>
      obtain ⟨uuid, -, rfl⟩ := mem_map.mp hr
      exact withState_size _
    all_goals cases hr
  have harrival : ∀ files d, ∀ r ∈ (arrival finite files d).2.1, r.device.values.size ≠ 0 := by
    intro files d r hr
    unfold arrival at hr
    split at hr
    · cases hr
    · generalize acquire files d.1.uuid d.2 = answer at hr
      rcases answer with ⟨files, _ | _ | _⟩
      · cases hr
      · cases hr
      · obtain rfl := mem_singleton.mp hr
        exact withState_size _
  have harrivals : ∀ (ds : List (Device F × LockAnswer)) files,
      ∀ r ∈ (arrivals finite files ds).1, r.device.values.size ≠ 0 := by
    intro ds
    induction ds with
    | nil => exact fun _ r hr => absurd hr not_mem_nil
    | cons d ds ih =>
      intro files r hr
      rcases mem_append.mp hr with hr | hr
      · exact harrival files d r hr
      · exact ih _ r hr
  intro r hr
  rcases mem_append.mp hr with hr | hr
  · exact hmissing r hr
  · exact harrivals _ _ r hr

end Export

/-! ## The books -/

inductive Fate where
  | sent
  | failed
  | coalesced
  | dropped
deriving DecidableEq

/-- What has become of every reading that was accepted, and the points that were dropped of others. -/
structure Books (F : Type) where
  accepted : List (Reading F) := []
  settled : List (Fate × Reading F) := []
  refused : ℕ := 0
deriving DecidableEq

structure Audited (F : Type) where
  system : System F
  books : Books F := {}
deriving DecidableEq

def Books.settle (b : Books F) (fate : Fate) (rs : List (Reading F)) : Books F :=
  { b with settled := b.settled ++ rs.map fun r => (fate, r) }

def Books.noteWorker (b : Books F) (s : System F) : Action F → Books F
  | .drop =>
    match s.worker with
    | .dropping batch => b.settle .dropped batch
    | _ => b
  | .respond ok =>
    match s.worker with
    | .requesting batch _ => b.settle (if ok then .sent else .failed) batch
    | _ => b
  | _ => b

section Audit

variable [Zero F] [One F] [NatCast F] (finite : F → Bool)

/-- The entries for a call of `Export` that is not turned away. -/
def Books.noteExport (b : Books F) (e : Exporter F) (snapshot : Snapshot F) : Books F :=
  let rs := acceptedReadings finite e snapshot
  { b.settle .coalesced (superseded e.pending rs) with
    accepted := b.accepted ++ rs
    refused := b.refused + (arrivals finite e.files snapshot.devices).2 }

def Books.note (b : Books F) (s : System F) : Action F → Books F
  | .export snapshot =>
    if snapshot.kind = .other ∨ s.exporter.closing then b else b.noteExport finite s.exporter snapshot
  | a => b.noteWorker s a

def Audited.step (s : Audited F) (a : Action F) : Option (Audited F) :=
  (s.system.step finite a).map fun t => { system := t, books := s.books.note finite s.system a }

def Audited.opened (files : AssocMap Text Bool) : Audited F where
  system := { exporter := { files } }

/-- No reading with a driver version is superseded, and where the worker sees that the context has ended nothing is
pending. -/
def Careful (s : Audited F) : Action F → Prop
  | .export snapshot =>
    snapshot.kind = .other ∨ s.system.exporter.closing = true ∨
    ∀ r ∈ superseded s.system.exporter.pending (acceptedReadings finite s.system.exporter snapshot),
      r.device.driverVersion = []
  | .check => s.system.exporter.cancelled = true → s.system.exporter.pending = ∅
  | _ => True

instance [DecidableEq F] (s : Audited F) : ∀ a, Decidable (Careful finite s a)
  | .export _ => inferInstanceAs (Decidable (_ ∨ _ ∨ _))
  | .check => inferInstanceAs (Decidable (_ → _))
  | .wake | .contextEnded | .take | .drop | .respond _ | .unwind | .shutdown | .wakeWorker | .finish | .expire =>
    .isTrue trivial

end Audit

/-! ## Balance -/

def Worker.inFlight : Worker F → List (Reading F)
  | .holding batch _ => batch
  | .dropping batch => batch
  | .requesting batch _ => batch
  | _ => []

def Worker.HasEnded : Worker F → Prop
  | .closingClient => True
  | .cancelling => True
  | .closingLocks => True
  | .ended => True
  | _ => False

def latest (rs : List (Reading F)) (uuid : Text) : Option (Reading F) := rs.reverse.find? fun r => r.device.uuid = uuid

def pointsOf [One F] (fate : Fate) (settled : List (Fate × Reading F)) : ℕ :=
  ((settled.filter fun p => p.1 = fate).map fun p => p.2.points).sum

structure Accounted [One F] (s : Audited F) : Prop where
  /-- Each reading that was accepted is at one place. -/
  readings : s.books.accepted.Perm
    (s.books.settled.map Prod.snd ++ s.system.worker.inFlight ++ s.system.exporter.pending.values)
  /-- The counters have the points of the readings. -/
  sent : s.system.exporter.stats.sentPoints = pointsOf .sent s.books.settled
  failed : s.system.exporter.stats.failedPoints = pointsOf .failed s.books.settled
  coalesced : s.system.exporter.stats.coalescedPoints = pointsOf .coalesced s.books.settled
  dropped : s.system.exporter.stats.droppedPoints = pointsOf .dropped s.books.settled + s.books.refused
  /-- One reading a device is pending, the last. -/
  one : (s.system.exporter.pending.values.map fun r => r.device.uuid).Nodup
  latest : ∀ r ∈ s.system.exporter.pending.values, latest s.books.accepted r.device.uuid = some r
  ended : s.system.worker.HasEnded → s.system.exporter.pending = ∅

/-! ## What every step keeps -/

def Worker.Last : Worker F → Prop
  | .select => False
  | .locking => False
  | .holding _ closing => closing = true
  | .requesting _ closing => closing = true
  | _ => True

structure Inv [One F] (s : Audited F) : Prop where
  readings : s.books.accepted.Perm
    (s.books.settled.map Prod.snd ++ s.system.worker.inFlight ++ s.system.exporter.pending.values)
  sent : s.system.exporter.stats.sentPoints = pointsOf .sent s.books.settled
  failed : s.system.exporter.stats.failedPoints = pointsOf .failed s.books.settled
  coalesced : s.system.exporter.stats.coalescedPoints = pointsOf .coalesced s.books.settled
  dropped : s.system.exporter.stats.droppedPoints = pointsOf .dropped s.books.settled + s.books.refused
  latest : ∀ uuid r, s.system.exporter.pending.find? uuid = some r → latest s.books.accepted uuid = some r
  sized : ∀ r ∈ s.books.accepted, r.device.values.size ≠ 0
  /-- Whoever wakes or cancels the worker has set `closing`. -/
  callers : 0 < s.system.waking ∨ 0 < s.system.waiting ∨ s.system.exporter.cancelled = true →
    s.system.exporter.closing = true
  last : s.system.worker.Last → s.system.exporter.closing = true ∧ s.system.exporter.pending = ∅

theorem latest_uuid {rs : List (Reading F)} {uuid : Text} {r : Reading F} (h : latest rs uuid = some r) :
    r.device.uuid = uuid := by
  simpa using find?_some h

theorem latest_append_singleton (rs : List (Reading F)) (r : Reading F) (uuid : Text) :
    latest (rs ++ [r]) uuid = if r.device.uuid = uuid then some r else latest rs uuid := by
  unfold latest
  rw [reverse_append, reverse_singleton, singleton_append, find?_cons]
  by_cases h : r.device.uuid = uuid <;> simp [h]

theorem latest_putAll {accepted : List (Reading F)} {pending : AssocMap Text (Reading F)}
    (h : ∀ uuid r, pending.find? uuid = some r → latest accepted uuid = some r) (rs : List (Reading F)) :
    ∀ uuid r, (putAll pending rs).find? uuid = some r → latest (accepted ++ rs) uuid = some r := by
  induction rs generalizing accepted pending with
  | nil =>
    rw [append_nil]
    exact h
  | cons r₀ rs ih =>
    rw [append_cons]
    refine ih ?_
    intro uuid r hr
    rw [AssocMap.find?_put] at hr
    rw [latest_append_singleton]
    by_cases huuid : uuid = r₀.device.uuid
    · rw [if_pos huuid] at hr
      rw [if_pos huuid.symm]
      exact hr
    · rw [if_neg huuid] at hr
      rw [if_neg (Ne.symm huuid)]
      exact h uuid r hr

theorem last_nextRound {closing : Bool} (h : (System.nextRound closing : Worker F).Last) : closing = true := by
  cases closing
  · exact h.elim
  · rfl

theorem inFlight_nextRound (closing : Bool) : (System.nextRound closing : Worker F).inFlight = [] := by
  cases closing <;> rfl

section Steps

variable [One F]

theorem pointsOf_settle (fate fate' : Fate) (b : Books F) (rs : List (Reading F)) :
    pointsOf fate (b.settle fate' rs).settled =
      pointsOf fate b.settled + if fate' = fate then (rs.map Reading.points).sum else 0 := by
  change pointsOf fate (b.settled ++ rs.map fun r => (fate', r)) = _
  unfold pointsOf
  rw [filter_append, map_append, sum_append, filter_map, map_map]
  by_cases h : fate' = fate
  · have hall : rs.filter ((fun p : Fate × Reading F => decide (p.1 = fate)) ∘ fun r => (fate', r)) = rs :=
      filter_eq_self.mpr fun r _ => decide_eq_true h
    rw [hall, if_pos h]
    rfl
  · have hnone : rs.filter ((fun p : Fate × Reading F => decide (p.1 = fate)) ∘ fun r => (fate', r)) = [] :=
      filter_eq_nil_iff.mpr fun r _ => by simpa using h
    rw [hnone, if_neg h]
    rfl

namespace Inv

variable {s : Audited F}

theorem accounts_for (h : Inv s) : Accounted s where
  readings := h.readings
  sent := h.sent
  failed := h.failed
  coalesced := h.coalesced
  dropped := h.dropped
  one := by
    have hkeys : (s.system.exporter.pending.values.map fun r => r.device.uuid) =
        s.system.exporter.pending.entries.keys := by
      unfold AssocMap.values List.keys
      rw [map_map]
      refine map_congr_left fun p hp => ?_
      exact latest_uuid (h.latest p.1 p.2 (AList.mem_lookup_iff.mpr hp))
    rw [hkeys]
    exact s.system.exporter.pending.nodupKeys
  latest := by
    intro r hr
    obtain ⟨uuid, huuid⟩ := AssocMap.mem_values_iff.mp hr
    have hlatest := h.latest uuid r huuid
    rw [latest_uuid hlatest]
    exact hlatest
  ended := by
    intro hended
    refine (h.last ?_).2
    unfold Worker.HasEnded at hended
    unfold Worker.Last
    cases hw : s.system.worker <;> rw [hw] at hended <;> first | exact trivial | exact hended.elim

theorem frame (h : Inv s) {t : System F} (hpending : t.exporter.pending = s.system.exporter.pending)
    (hstats : t.exporter.stats = s.system.exporter.stats) (hflight : t.worker.inFlight = s.system.worker.inFlight)
    (hcallers : 0 < t.waking ∨ 0 < t.waiting ∨ t.exporter.cancelled = true → t.exporter.closing = true)
    (hlast : t.worker.Last → t.exporter.closing = true ∧ s.system.exporter.pending = ∅) :
    Inv { system := t, books := s.books } where
  readings := by
    rw [hflight, hpending]
    exact h.readings
  sent := by rw [hstats, h.sent]
  failed := by rw [hstats, h.failed]
  coalesced := by rw [hstats, h.coalesced]
  dropped := by rw [hstats, h.dropped]
  latest := by
    rw [hpending]
    exact h.latest
  sized := h.sized
  callers := hcallers
  last := by
    rw [hpending]
    exact hlast

theorem settle (h : Inv s) {t : System F} {fate : Fate} {batch : List (Reading F)}
    (hflight : s.system.worker.inFlight = batch) (hpending : t.exporter.pending = s.system.exporter.pending)
    (hdone : t.worker.inFlight = [])
    (hsent : t.exporter.stats.sentPoints =
      s.system.exporter.stats.sentPoints + if fate = .sent then (batch.map Reading.points).sum else 0)
    (hfailed : t.exporter.stats.failedPoints =
      s.system.exporter.stats.failedPoints + if fate = .failed then (batch.map Reading.points).sum else 0)
    (hcoalesced : t.exporter.stats.coalescedPoints =
      s.system.exporter.stats.coalescedPoints + if fate = .coalesced then (batch.map Reading.points).sum else 0)
    (hdropped : t.exporter.stats.droppedPoints =
      s.system.exporter.stats.droppedPoints + if fate = .dropped then (batch.map Reading.points).sum else 0)
    (hcallers : 0 < t.waking ∨ 0 < t.waiting ∨ t.exporter.cancelled = true → t.exporter.closing = true)
    (hlast : t.worker.Last → t.exporter.closing = true ∧ s.system.exporter.pending = ∅) :
    Inv { system := t, books := s.books.settle fate batch } where
  readings := by
    have hreadings := h.readings
    rw [hflight] at hreadings
    change s.books.accepted.Perm ((s.books.settled ++ batch.map fun r => (fate, r)).map Prod.snd ++ _ ++ _)
    have hbatch : (batch.map fun r => (fate, r)).map Prod.snd = batch := by
      rw [map_map]
      exact map_id batch
    rw [hdone, hpending, map_append, hbatch, append_nil]
    exact hreadings
  sent := by rw [hsent, h.sent, pointsOf_settle]
  failed := by rw [hfailed, h.failed, pointsOf_settle]
  coalesced := by rw [hcoalesced, h.coalesced, pointsOf_settle]
  dropped := by
    rw [hdropped, h.dropped, pointsOf_settle]
    exact Nat.add_right_comm _ _ _
  latest := by
    rw [hpending]
    exact h.latest
  sized := h.sized
  callers := hcallers
  last := by
    rw [hpending]
    exact hlast

theorem stepShutdown (h : Inv s) {a : Action F} {t : System F} (ht : s.system.stepShutdown a = some t) :
    Inv { system := t, books := s.books } := by
  cases a <;> unfold System.stepShutdown at ht
  case shutdown =>
    cases ht
    exact h.frame rfl rfl rfl (fun _ => rfl) fun hlast => ⟨rfl, (h.last hlast).2⟩
  case wakeWorker =>
    obtain ⟨hwaking, ht⟩ := Option.ite_none_right_eq_some.mp ht
    cases ht
    exact h.frame rfl rfl rfl (fun _ => h.callers (.inl hwaking)) h.last
  case finish =>
    cases hw : s.system.worker <;> rw [hw] at ht
    case ended =>
      obtain ⟨hwaiting, ht⟩ := Option.ite_none_right_eq_some.mp ht
      cases ht
      rw [← hw]
      exact h.frame rfl rfl rfl (fun _ => h.callers (.inr (.inl hwaiting))) h.last
    all_goals cases ht
  case expire =>
    obtain ⟨hwaiting, ht⟩ := Option.ite_none_right_eq_some.mp ht
    cases ht
    exact h.frame rfl rfl rfl (fun _ => h.callers (.inr (.inl hwaiting))) h.last
  all_goals cases ht

theorem check (h : Inv s) {batch : List (Reading F)} {closing : Bool} (hw : s.system.worker = .holding batch closing)
    (hcareful : s.system.exporter.cancelled = true → s.system.exporter.pending = ∅) :
    Inv { system := s.system.checkBatch batch closing, books := s.books } := by
  have hlast : closing = true → s.system.exporter.closing = true ∧ s.system.exporter.pending = ∅ := by
    intro hclosing
    refine h.last ?_
    rw [hw]
    exact hclosing
  have hflight : s.system.worker.inFlight = batch := by
    rw [hw]
    rfl
  unfold System.checkBatch
  by_cases hcancelled : s.system.exporter.cancelled = true
  · rw [if_pos hcancelled]
    exact h.frame rfl rfl hflight.symm h.callers fun _ => ⟨h.callers (.inr (.inr hcancelled)), hcareful hcancelled⟩
  rw [if_neg hcancelled]
  by_cases hcount : (payload batch).2 = 0
  · rw [if_pos hcount]
    -- every reading has a point, so there is none
    have hempty : batch = [] := by
      refine eq_nil_iff_forall_not_mem.mpr fun r hr => ?_
      have haccepted : r ∈ s.books.accepted := by
        refine h.readings.mem_iff.mpr (mem_append_left _ (mem_append_right _ ?_))
        rw [hflight]
        exact hr
      have hpoints : r.points = 0 := by
        rw [payload_count, List.sum_eq_zero_iff_forall_eq_nat] at hcount
        exact hcount _ (mem_map_of_mem hr)
      rw [Reading.points_eq] at hpoints
      exact h.sized r haccepted (Nat.eq_zero_of_add_eq_zero_right hpoints)
    refine h.frame rfl rfl ?_ h.callers fun hnext => hlast (last_nextRound hnext)
    rw [hflight, hempty]
    exact inFlight_nextRound closing
  · rw [if_neg hcount]
    exact h.frame rfl rfl hflight.symm h.callers hlast

theorem take (h : Inv s) (hw : s.system.worker = .locking) :
    Inv { system := { s.system with
            exporter.pending := ∅
            worker := .holding s.system.exporter.pending.values s.system.exporter.closing }
          books := s.books } where
  readings := by
    have hreadings := h.readings
    rw [hw] at hreadings
    change s.books.accepted.Perm (_ ++ s.system.exporter.pending.values ++ [])
    rw [append_nil]
    change s.books.accepted.Perm (_ ++ [] ++ s.system.exporter.pending.values) at hreadings
    rw [append_nil] at hreadings
    exact hreadings
  sent := h.sent
  failed := h.failed
  coalesced := h.coalesced
  dropped := h.dropped
  latest := fun uuid r hr => by cases hr
  sized := h.sized
  callers := h.callers
  last := fun hlast => ⟨hlast, rfl⟩

theorem stepWorker (h : Inv s) {a : Action F} {t : System F} (ht : s.system.stepWorker a = some t)
    (hcareful : a = .check → s.system.exporter.cancelled = true → s.system.exporter.pending = ∅) :
    Inv { system := t, books := s.books.noteWorker s.system a } := by
  cases a <;> unfold System.stepWorker at ht <;> unfold Books.noteWorker
  case wake =>
    cases hw : s.system.worker <;> rw [hw] at ht
    case select =>
      obtain ⟨-, ht⟩ := Option.ite_none_right_eq_some.mp ht
      cases ht
      exact h.frame rfl rfl (by rw [hw]; rfl) h.callers fun hlast => hlast.elim
    all_goals cases ht
  case contextEnded =>
    cases hw : s.system.worker <;> rw [hw] at ht
    case select =>
      obtain ⟨-, ht⟩ := Option.ite_none_right_eq_some.mp ht
      cases ht
      exact h.frame rfl rfl (by rw [hw]; rfl) h.callers fun hlast => hlast.elim
    all_goals cases ht
  case take =>
    cases hw : s.system.worker <;> rw [hw] at ht
    case locking =>
      cases ht
      exact h.take hw
    all_goals cases ht
  case check =>
    cases hw : s.system.worker <;> rw [hw] at ht
    case holding batch closing =>
      cases ht
      exact h.check hw (hcareful rfl)
    all_goals cases ht
  case drop =>
    cases hw : s.system.worker <;> rw [hw] at ht
    case dropping batch =>
      cases ht
      refine h.settle (by rw [hw]; rfl) rfl rfl rfl rfl rfl ?_ h.callers fun _ => h.last (by rw [hw]; exact trivial)
      rw [if_pos rfl, ← payload_count]
      rfl
    all_goals cases ht
  case respond ok =>
    cases hw : s.system.worker <;> rw [hw] at ht
    case requesting batch closing =>
      cases ht
      have hlast : (System.nextRound closing : Worker F).Last →
          s.system.exporter.closing = true ∧ s.system.exporter.pending = ∅ := by
        intro hnext
        refine h.last ?_
        rw [hw]
        exact last_nextRound hnext
      cases ok
      · refine h.settle (by rw [hw]; rfl) rfl (inFlight_nextRound closing) rfl ?_ rfl rfl h.callers hlast
        rw [if_neg Bool.false_ne_true, if_pos rfl, ← payload_count]
        rfl
      · refine h.settle (by rw [hw]; rfl) rfl (inFlight_nextRound closing) ?_ rfl rfl rfl h.callers hlast
        rw [if_pos rfl, if_pos rfl, ← payload_count]
        rfl
    all_goals cases ht
  case unwind =>
    cases hw : s.system.worker <;> rw [hw] at ht
    case closingClient =>
      cases ht
      exact h.frame rfl rfl (by rw [hw]; rfl) h.callers fun _ => h.last (by rw [hw]; exact trivial)
    case cancelling =>
      cases ht
      have hlast := h.last (by rw [hw]; exact trivial)
      exact h.frame rfl rfl (by rw [hw]; rfl) (fun _ => hlast.1) fun _ => hlast
    case closingLocks =>
      cases ht
      exact h.frame rfl rfl (by rw [hw]; rfl) h.callers fun _ => h.last (by rw [hw]; exact trivial)
    all_goals cases ht
  all_goals cases ht

end Inv

end Steps

section Runs

variable [Zero F] [One F] [NatCast F] {finite : F → Bool} {s : Audited F}

theorem Inv.noteExport (h : Inv s) {snapshot : Snapshot F} {e : Exporter F}
    (hclosing : s.system.exporter.closing = false)
    (heffect : Effect s.system.exporter e (acceptedReadings finite s.system.exporter snapshot)
      (arrivals finite s.system.exporter.files snapshot.devices).2)
    (hcareful : ∀ r ∈ superseded s.system.exporter.pending (acceptedReadings finite s.system.exporter snapshot),
      r.device.driverVersion = []) :
    Inv { system := { s.system with exporter := e }
          books := s.books.noteExport finite s.system.exporter snapshot } := by
  set rs := acceptedReadings finite s.system.exporter snapshot
  -- a reading without a driver version has its values only
  have hvalues : ((superseded s.system.exporter.pending rs).map fun r => r.device.values.size).sum =
      ((superseded s.system.exporter.pending rs).map Reading.points).sum := by
    congr 1
    refine map_congr_left fun r hr => ?_
    rw [Reading.points_eq, if_pos (hcareful r hr), Nat.add_zero]
  have hpoints := fun fate => pointsOf_settle fate .coalesced s.books (superseded s.system.exporter.pending rs)
  constructor
  case readings =>
    have hbatch : ((superseded s.system.exporter.pending rs).map fun r => (Fate.coalesced, r)).map Prod.snd =
        superseded s.system.exporter.pending rs := by
      rw [map_map]
      exact map_id _
    change (s.books.accepted ++ rs).Perm ((s.books.settled ++
      (superseded s.system.exporter.pending rs).map fun r => (Fate.coalesced, r)).map Prod.snd ++
      s.system.worker.inFlight ++ e.pending.values)
    rw [map_append, hbatch, heffect.pending]
    refine (h.readings.append_right rs).trans ?_
    simp only [append_assoc]
    refine List.Perm.append_left _ ?_
    refine ((superseded_perm s.system.exporter.pending rs).append_left _).trans ?_
    exact perm_append_comm_assoc _ _ _
  case sent => exact heffect.sent.trans (h.sent.trans (hpoints .sent).symm)
  case failed => exact heffect.failed.trans (h.failed.trans (hpoints .failed).symm)
  case coalesced =>
    refine heffect.coalesced.trans ?_
    rw [hvalues, h.coalesced]
    exact (hpoints .coalesced).symm
  case dropped =>
    refine heffect.dropped.trans ?_
    rw [h.dropped, Nat.add_assoc]
    exact congrArg (· + _) (hpoints .dropped).symm
  case latest =>
    change ∀ uuid r, e.pending.find? uuid = some r → _
    rw [heffect.pending]
    exact latest_putAll h.latest rs
  case sized =>
    intro r hr
    rcases mem_append.mp hr with hr | hr
    · exact h.sized r hr
    · exact acceptedReadings_size finite _ _ r hr
  case callers =>
    change _ ∨ _ ∨ e.cancelled = true → e.closing = true
    rw [heffect.cancelled, heffect.closing]
    exact h.callers
  case last =>
    intro hlast
    exact absurd (h.last hlast).1 (by simp [hclosing])

theorem Inv.export (h : Inv s) {snapshot : Snapshot F} (hcareful : Careful finite s (.export snapshot)) {t : Audited F}
    (ht : s.step finite (.export snapshot) = some t) : Inv t := by
  obtain ⟨t', ht', rfl⟩ := Option.map_eq_some_iff.mp ht
  rw [System.step] at ht'
  rw [Books.note]
  by_cases hturned : snapshot.kind = .other ∨ s.system.exporter.closing = true
  · rw [if_pos hturned]
    -- the call changes nothing, whether it says so or not
    have hsame : t' = s.system := by
      unfold Exporter.exportSnapshot at ht'
      by_cases hkind : snapshot.kind = .other
      · rw [if_pos hkind] at ht'
        exact (Option.some.inj ht').symm
      · rw [if_neg hkind, if_pos (hturned.resolve_left hkind)] at ht'
        exact (Option.some.inj ht').symm
    rw [hsame]
    exact h
  · rw [if_neg hturned]
    obtain ⟨hkind, hclosing⟩ := not_or.mp hturned
    have hopen : s.system.exporter.closing = false := Bool.eq_false_iff.mpr hclosing
    obtain ⟨e, he, heffect⟩ := exportSnapshot_spec finite hkind hopen
    rw [he] at ht'
    cases ht'
    exact h.noteExport hopen heffect ((hcareful.resolve_left hkind).resolve_left hclosing)

theorem Inv.step (h : Inv s) {a : Action F} (hcareful : Careful finite s a) {t : Audited F}
    (ht : s.step finite a = some t) : Inv t := by
  cases a
  case «export» snapshot => exact h.export hcareful ht
  case shutdown | wakeWorker | finish | expire =>
    obtain ⟨t', ht', rfl⟩ := Option.map_eq_some_iff.mp ht
    rw [System.step] at ht'
    exact h.stepShutdown ht'
  case check =>
    obtain ⟨t', ht', rfl⟩ := Option.map_eq_some_iff.mp ht
    rw [System.step] at ht'
    · exact h.stepWorker ht' fun _ => hcareful
    all_goals nofun
  all_goals
    obtain ⟨t', ht', rfl⟩ := Option.map_eq_some_iff.mp ht
    rw [System.step] at ht'
    · exact h.stepWorker ht' nofun
    all_goals nofun

omit [Zero F] [NatCast F] in
theorem inv_opened (files : AssocMap Text Bool) : Inv (Audited.opened files : Audited F) where
  readings := List.Perm.refl _
  sent := rfl
  failed := rfl
  coalesced := rfl
  dropped := rfl
  latest := fun _ _ hr => by cases hr
  sized := fun r hr => by cases hr
  callers := by
    rintro (hwaking | hwaiting | hcancelled)
    · exact absurd hwaking (Nat.lt_irrefl 0)
    · exact absurd hwaiting (Nat.lt_irrefl 0)
    · cases hcancelled
  last := fun hlast => hlast.elim

/-- In any order of the calls and the worker's steps, every point of a reading that was accepted is counted once or is
still to be counted, one reading a device is pending, the last, and none is when the worker has ended: if no reading
with a driver version was superseded, and the worker has seen the context end with nothing pending. -/
theorem accounts {files : AssocMap Text Bool} {as : List (Action F)}
    (h : Run (fun s a s' => Careful finite s a ∧ s.step finite a = some s') (.opened files) as s) : Accounted s :=
  (Run.invariant (I := fun _ s => Inv s) (inv_opened files) (fun _ _ _ _ _ hs ha => hs.step ha.1 ha.2) h).accounts_for

end Runs

/-! ## Two readings of a device -/

structure Degrees where
  tenths : ℕ
deriving DecidableEq

instance : Zero Degrees := ⟨{ tenths := 0 }⟩

instance : One Degrees := ⟨{ tenths := 10 }⟩

instance : NatCast Degrees := ⟨fun n => { tenths := 10 * n }⟩

def anyDegrees : Degrees → Bool := fun _ => true

def hot (degrees : ℕ) (driverVersion : Text) : Snapshot Degrees where
  kind := .sample
  timestamp := 1
  devices := [({ uuid := ascii "GPU-0", driverVersion, timestamp := 1,
                 values := AssocMap.put ∅ (ascii "gpu.temperature_celsius") degrees }, .held)]

/-- The second reading comes while the first is on its way, and `Shutdown` after it. -/
def sentInTurn : List (Action Degrees) :=
  [.export (hot 60 (ascii "535")), .wake, .take, .check, .export (hot 61 (ascii "535")), .respond true, .shutdown,
    .wakeWorker, .wake, .take, .check, .respond false, .unwind, .unwind, .unwind, .finish]

theorem accounts_sentInTurn :
    ∃ s, Run (fun s a s' => Careful anyDegrees s a ∧ s.step anyDegrees a = some s') (.opened ∅) sentInTurn s ∧
      (s.system.worker = .ended ∧ s.system.exporter.stats.sentPoints = 9 ∧
        s.system.exporter.stats.failedPoints = 9) ∧ Accounted s := by
  obtain ⟨s, hrun, hs⟩ := exists_guarded_run (Audited.step anyDegrees) (Careful anyDegrees) (.opened ∅) sentInTurn
    (fun s => s.system.worker = .ended ∧ s.system.exporter.stats.sentPoints = 9 ∧
      s.system.exporter.stats.failedPoints = 9) (by decide +kernel)
  exact ⟨s, hrun, of_decide_eq_true hs, accounts hrun⟩

/-- The second reading comes before the worker has taken the first. -/
def supersededWithDriver : List (Action Degrees) := [.export (hot 60 (ascii "535")), .export (hot 61 (ascii "535"))]

/-- The context ends while the worker has the first reading, after the second was accepted. -/
def cancelledWhileHolding : List (Action Degrees) :=
  [.export (hot 60 []), .wake, .take, .export (hot 61 []), .shutdown, .wakeWorker, .expire, .check, .drop, .unwind,
    .unwind, .unwind]

/-- Of the nine points of the first reading eight are counted; and the worker ends with a reading pending. -/
theorem not_accounts :
    (∃ s, Run (fun s a s' => Audited.step anyDegrees s a = some s') (.opened ∅) supersededWithDriver s ∧ ¬Accounted s) ∧
    ∃ s, Run (fun s a s' => Audited.step anyDegrees s a = some s') (.opened ∅) cancelledWhileHolding s ∧ ¬Accounted s := by
  constructor
  · obtain ⟨s, hrun, hs⟩ := @exists_run _ _ (Audited.step anyDegrees) (.opened ∅) supersededWithDriver
      (fun s => s.system.exporter.stats.coalescedPoints = 8 ∧ pointsOf .coalesced s.books.settled = 9)
      (by decide +kernel)
    obtain ⟨height, hnine⟩ := of_decide_eq_true hs
    refine ⟨s, hrun, fun h => ?_⟩
    have hcoalesced := h.coalesced
    rw [height, hnine] at hcoalesced
    exact absurd hcoalesced (by decide)
  · obtain ⟨s, hrun, hs⟩ := @exists_run _ _ (Audited.step anyDegrees) (.opened ∅) cancelledWhileHolding
      (fun s => s.system.worker = .ended ∧ s.system.exporter.pending ≠ ∅) (by decide +kernel)
    obtain ⟨hended, hpending⟩ := of_decide_eq_true hs
    refine ⟨s, hrun, fun h => hpending (h.ended ?_)⟩
    rw [hended]
    exact trivial

end PerfAgent.Metrics
