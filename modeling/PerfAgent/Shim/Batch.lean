import PerfAgent.Gpuprobe.Consumer

/-!
# Batches with sequence numbers, and the gaps seen at the other end

The producer's batching (`core/batch.h`) and what the consumer makes of the numbers on the
batches.  A batch takes its number when it is handed to the probe and never when it is
dropped, so the numbers of the batches that left are consecutive, and a jump in them at the
consumer can only come from batches that were lost on the way.

The two ends agree through a `uint64_t`.  Across its wrap `noteSeq` sees no jump, so the gap
that swallows the batch numbered `2 ^ 64 - 1` is reported too small, and every other gap is
reported exactly.
-/

universe u

namespace PerfAgent.Shim

open List Option

variable {T : Type u}

/-- `Batch<T, N>`: the first `n_` places of `buf_` and the two counters. -/
structure Batch (T : Type u) where
  buf : List T := []
  seq : Nat := 0
  dropped : Nat := 0
deriving DecidableEq

structure Emission (T : Type u) where
  records : List T
  seq : Nat
deriving DecidableEq

inductive Flushed (T : Type u) where
  | /-- There were none. -/ nothing
  | /-- No consumer was attached. -/ dropped (records : List T)
  | /-- The probe fired. -/ emitted (e : Emission T)
deriving DecidableEq

namespace Flushed

def records : Flushed T → List T
  | nothing => []
  | dropped rs => rs
  | emitted e => e.records

def droppedRecords : Flushed T → List T
  | nothing => []
  | dropped rs => rs
  | emitted _ => []

def emission? : Flushed T → Option (Emission T)
  | nothing => none
  | dropped _ => none
  | emitted e => some e

end Flushed

namespace Batch

/-- `flush_locked`; `enabled` is what the probe semaphore answers. -/
def flushLocked (b : Batch T) (enabled : Bool) : Flushed T × Batch T :=
  if b.buf.length = 0 then (.nothing, b)
  else if !enabled then
    (.dropped b.buf, { b with dropped := (b.dropped + b.buf.length) % 2 ^ 64, buf := [] })
  else (.emitted { records := b.buf, seq := b.seq }, { b with seq := (b.seq + 1) % 2 ^ 64, buf := [] })

variable (N : Nat)

/-- `add`.  The semaphore is read twice when the record fills the batch, and the two answers
need not agree. -/
def add (b : Batch T) (rec : T) (enabled enabledAtFlush : Bool) : Bool × Flushed T × Batch T :=
  if !enabled then (false, .nothing, { b with dropped := (b.dropped + 1) % 2 ^ 64 })
  else
    let b := { b with buf := b.buf ++ [rec] }
    if b.buf.length = N then (true, b.flushLocked enabledAtFlush) else (true, .nothing, b)

end Batch

inductive BatchCall (T : Type u) where
  | add (rec : T) (enabled enabledAtFlush : Bool)
  | flush (enabled : Bool)
deriving DecidableEq

variable {places : List Nat} (fs : List (Flushed T))

/-- A batch with the history of its calls: the records it has taken, how many it has refused,
and what its flushes did. -/
structure Producer (T : Type u) where
  batch : Batch T := {}
  accepted : List T := []
  refused : Nat := 0
  flushes : List (Flushed T) := []

namespace Producer

def emitted (p : Producer T) : List (Emission T) := p.flushes.filterMap Flushed.emission?

def droppedAtFlush (p : Producer T) : List T := p.flushes.flatMap Flushed.droppedRecords

/-- The records that reached the probe, in the order in which they did. -/
def emittedRecords (p : Producer T) : List T := p.emitted.flatMap Emission.records

def flushed (p : Producer T) (r : Flushed T × Batch T) : Producer T :=
  { p with batch := r.2, flushes := p.flushes ++ [r.1] }

variable (N : Nat)

def step (p : Producer T) : BatchCall T → Producer T
  | .add rec enabled enabledAtFlush =>
    match p.batch.add N rec enabled enabledAtFlush with
    | (true, r) => flushed { p with accepted := p.accepted ++ [rec] } r
    | (false, r) => flushed { p with refused := p.refused + 1 } r
  | .flush enabled => p.flushed (p.batch.flushLocked enabled)

def run (calls : List (BatchCall T)) : Producer T := calls.foldl (step N) {}

/-! ## Every record once, and the numbers in a row -/

/-- Every accepted record has been flushed in its turn or is buffered, and the counters count
what happened. -/
structure Accounts (p : Producer T) : Prop where
  whole : p.accepted = p.flushes.flatMap Flushed.records ++ p.batch.buf
  numbered : p.emitted.map Emission.seq = (List.range p.emitted.length).map (· % 2 ^ 64)
  next : p.batch.seq = p.emitted.length % 2 ^ 64
  dropped : p.batch.dropped = (p.refused + p.droppedAtFlush.length) % 2 ^ 64

theorem emitted_flushed (p : Producer T) (r : Flushed T × Batch T) :
    (p.flushed r).emitted = p.emitted ++ r.1.emission?.toList := by
  rw [emitted, flushed, filterMap_append]
  cases r.1 <;> rfl

theorem droppedAtFlush_flushed (p : Producer T) (r : Flushed T × Batch T) :
    (p.flushed r).droppedAtFlush = p.droppedAtFlush ++ r.1.droppedRecords := by
  simp [droppedAtFlush, flushed]

theorem records_flushed (p : Producer T) (r : Flushed T × Batch T) : (p.flushed r).flushes.flatMap Flushed.records =
      p.flushes.flatMap Flushed.records ++ r.1.records := by
  simp [flushed]

theorem Accounts.flushed_nothing {p : Producer T} {b : Batch T}
    (hw : p.accepted = p.flushes.flatMap Flushed.records ++ b.buf)
    (hnum : p.emitted.map Emission.seq = (List.range p.emitted.length).map (· % 2 ^ 64))
    (hnext : b.seq = p.emitted.length % 2 ^ 64)
    (hd : b.dropped = (p.refused + p.droppedAtFlush.length) % 2 ^ 64) :
    (p.flushed (.nothing, b)).Accounts where
  whole := by
    rw [records_flushed, Flushed.records, append_nil]
    exact hw
  numbered := by
    rw [emitted_flushed, Flushed.emission?, toList_none, append_nil]
    exact hnum
  next := by
    rw [emitted_flushed, Flushed.emission?, toList_none, append_nil]
    exact hnext
  dropped := by
    rw [droppedAtFlush_flushed, Flushed.droppedRecords, append_nil]
    exact hd

theorem Accounts.flushLocked {p : Producer T} (hp : p.Accounts) (enabled : Bool) :
    (p.flushed (p.batch.flushLocked enabled)).Accounts ∧ (p.batch.flushLocked enabled).2.buf.length = 0 := by
  obtain ⟨hw, hnum, hnext, hd⟩ := hp
  rw [Batch.flushLocked]
  split_ifs with hempty hoff
  · exact ⟨.flushed_nothing hw hnum hnext hd, hempty⟩
  · refine ⟨⟨?_, ?_, ?_, ?_⟩, rfl⟩
    · rw [records_flushed, Flushed.records]
      exact hw.trans (append_nil _).symm
    · rw [emitted_flushed, Flushed.emission?, toList_none, append_nil]
      exact hnum
    · rw [emitted_flushed, Flushed.emission?, toList_none, append_nil]
      exact hnext
    · rw [droppedAtFlush_flushed, Flushed.droppedRecords, List.length_append]
      change (p.batch.dropped + p.batch.buf.length) % 2 ^ 64 = _
      rw [hd, Nat.mod_add_mod, Nat.add_assoc]
      rfl
  · refine ⟨⟨?_, ?_, ?_, ?_⟩, rfl⟩
    · rw [records_flushed, Flushed.records]
      exact hw.trans (append_nil _).symm
    · rw [emitted_flushed, Flushed.emission?, toList_some, List.length_append,
        length_singleton, range_succ, map_append, map_append, hnum,
        map_singleton, map_singleton, hnext]
    · rw [emitted_flushed, Flushed.emission?, toList_some, List.length_append]
      change (p.batch.seq + 1) % 2 ^ 64 = _
      rw [hnext, Nat.mod_add_mod]
      rfl
    · rw [droppedAtFlush_flushed, Flushed.droppedRecords, append_nil]
      exact hd

variable {N}

theorem Accounts.step {p : Producer T} (hN : 0 < N) (hp : p.Accounts)
    (hbuf : p.batch.buf.length < N) (c : BatchCall T) :
    (p.step N c).Accounts ∧ (p.step N c).batch.buf.length < N := by
  cases c with
  | flush enabled =>
    obtain ⟨h, hempty⟩ := hp.flushLocked enabled
    exact ⟨h, hempty.trans_lt hN⟩
  | add rec enabled enabledAtFlush =>
    rw [Producer.step, Batch.add]
    cases enabled with
    | false =>
      refine ⟨.flushed_nothing hp.whole hp.numbered hp.next ?_, hbuf⟩
      change (p.batch.dropped + 1) % 2 ^ 64 = (p.refused + 1 + p.droppedAtFlush.length) % 2 ^ 64
      rw [hp.dropped, Nat.mod_add_mod, Nat.add_right_comm]
    | true =>
      -- the record is buffered first, and a batch that is full now is flushed
      have hq : Accounts { p with
          accepted := p.accepted ++ [rec]
          batch := { p.batch with buf := p.batch.buf ++ [rec] } } :=
        ⟨by rw [hp.whole, append_assoc], hp.numbered, hp.next, hp.dropped⟩
      simp only [Bool.not_true, Bool.false_eq_true, if_false]
      split_ifs with hfull
      · obtain ⟨h, hempty⟩ := hq.flushLocked enabledAtFlush
        exact ⟨h, hempty.trans_lt hN⟩
      · refine ⟨.flushed_nothing hq.whole hq.numbered hq.next hq.dropped, ?_⟩
        have hle : (p.batch.buf ++ [rec]).length ≤ N := by
          rw [List.length_append]
          exact hbuf
        exact Nat.lt_of_le_of_ne hle hfull

theorem accounts_run (hN : 0 < N) (calls : List (BatchCall T)) :
    (run N calls).Accounts ∧ (run N calls).batch.buf.length < N := by
  have h₀ : ({} : Producer T).Accounts := ⟨rfl, rfl, rfl, rfl⟩
  refine List.foldlRecOn (motive := fun p => p.Accounts ∧ p.batch.buf.length < N) calls (step N) ⟨h₀, hN⟩ ?_
  intro p hp c _
  exact hp.1.step hN hp.2 c

theorem emitted_sublist_flushed :
    ((fs.filterMap Flushed.emission?).flatMap Emission.records).Sublist (fs.flatMap Flushed.records) := by
  induction fs with
  | nil => exact .slnil
  | cons f fs ih =>
    cases f with
    | nothing => exact ih
    | dropped rs => exact ih.trans (sublist_append_right rs _)
    | emitted e => exact (List.Sublist.refl e.records).append ih

theorem length_flushed : (fs.flatMap Flushed.records).length =
      ((fs.filterMap Flushed.emission?).flatMap Emission.records).length +
        (fs.flatMap Flushed.droppedRecords).length := by
  induction fs with
  | nil => rfl
  | cons f fs ih =>
    cases f with
    | nothing => exact ih
    | dropped rs =>
      rw [flatMap_cons, filterMap_cons_none rfl, flatMap_cons,
        List.length_append, List.length_append, ih, Nat.add_left_comm]
      rfl
    | emitted e =>
      rw [flatMap_cons, filterMap_cons_some (f := Flushed.emission?) rfl, flatMap_cons,
        List.length_append, List.length_append, ih, Nat.add_assoc]
      rfl

/-- The numbers on those of the emitted batches that are delivered, given by their places. -/
def deliveredSeqs (p : Producer T) (places : List Nat) : List Nat :=
  (places.filterMap (p.emitted[·]?)).map Emission.seq

theorem Accounts.deliveredSeqs_eq {p : Producer T} (hp : p.Accounts) (h : ∀ i ∈ places, i < p.emitted.length) :
    p.deliveredSeqs places = places.map (· % 2 ^ 64) := by
  have hseq : ∀ {i : Nat} (hi : i < p.emitted.length), p.emitted[i].seq = i % 2 ^ 64 := by
    intro i hi
    have hget := congrArg (·[i]?) hp.numbered
    simpa [hi] using hget
  induction places with
  | nil => rfl
  | cons i is ih =>
    have hi := h i (mem_cons_self ..)
    rw [deliveredSeqs, filterMap_cons_some (getElem?_eq_getElem hi), map_cons, hseq hi, map_cons]
    exact congrArg _ (ih fun j hj => h j (mem_cons_of_mem i hj))

end Producer

/-! ## The gaps the consumer reports -/

/-- The sum of what `noteSeq` returns over the batches of one stream. -/
def lossesReported (c : Gpuprobe.Consumer) (kind pid : Nat) : List Nat → Nat
  | [] => 0
  | seq :: seqs =>
    (c.noteSeq kind pid seq).1 + lossesReported (c.noteSeq kind pid seq).2 kind pid seqs

def missingBetween : List Nat → List Nat
  | i :: j :: places => List.range' (i + 1) (j - (i + 1)) ++ missingBetween (j :: places)
  | _ => []

/-- One gap.  It is never reported too large, and it is reported exactly unless the batch with
the last number before the wrap is in it. -/
theorem noteSeq_between {c : Gpuprobe.Consumer} {kind pid i j : Nat}
    (h : c.seqByStream.find? { kind := kind, pid := pid } = some (i % 2 ^ 64)) (hij : i < j) :
    (c.noteSeq kind pid (j % 2 ^ 64)).1 ≤ j - (i + 1) ∧ ((c.noteSeq kind pid (j % 2 ^ 64)).1 = j - (i + 1) ↔
        ∀ m ∈ List.range' (i + 1) (j - (i + 1)), m % 2 ^ 64 ≠ 2 ^ 64 - 1) := by
  simp only [Gpuprobe.Consumer.noteSeq, h]
  -- the first place after `i` that carries the last number before the wrap
  rcases Nat.lt_or_ge (i + 1 + (2 ^ 64 - 1 - (i + 1) % 2 ^ 64)) j with hin | hout
  · have hlost : (if j % 2 ^ 64 > (i % 2 ^ 64 + 1) % 2 ^ 64 then
        (j % 2 ^ 64 + 2 ^ 64 - (i % 2 ^ 64 + 1)) % 2 ^ 64 else 0) < j - (i + 1) := by
      split <;> omega
    refine ⟨hlost.le, iff_of_false hlost.ne ?_⟩
    intro hall
    refine hall (i + 1 + (2 ^ 64 - 1 - (i + 1) % 2 ^ 64)) ?_ (by omega)
    rw [mem_range'_1]
    omega
  · have hlost : (if j % 2 ^ 64 > (i % 2 ^ 64 + 1) % 2 ^ 64 then
        (j % 2 ^ 64 + 2 ^ 64 - (i % 2 ^ 64 + 1)) % 2 ^ 64 else 0) = j - (i + 1) := by
      split <;> omega
    rw [hlost]
    refine ⟨le_rfl, iff_of_true rfl ?_⟩
    intro m hm
    rw [mem_range'_1] at hm
    omega

theorem find?_noteSeq (c : Gpuprobe.Consumer) (kind pid seq : Nat) :
    (c.noteSeq kind pid seq).2.seqByStream.find? { kind := kind, pid := pid } = some seq :=
  AssocMap.find?_put_self ..

theorem lossesReported_after {kind pid : Nat} (places : List Nat) : ∀ {c : Gpuprobe.Consumer} {i : Nat},
      c.seqByStream.find? { kind := kind, pid := pid } = some (i % 2 ^ 64) →
      (i :: places).Pairwise (· < ·) →
      lossesReported c kind pid (places.map (· % 2 ^ 64)) ≤ (missingBetween (i :: places)).length ∧
        (lossesReported c kind pid (places.map (· % 2 ^ 64)) = (missingBetween (i :: places)).length ↔
          ∀ m ∈ missingBetween (i :: places), m % 2 ^ 64 ≠ 2 ^ 64 - 1) := by
  induction places with
  | nil =>
    intro c i _ _
    exact ⟨le_rfl, iff_of_true rfl (by simp [missingBetween])⟩
  | cons j js ih =>
    intro c i hc hord
    obtain ⟨hi, hjs⟩ := pairwise_cons.mp hord
    obtain ⟨hle, hiff⟩ := noteSeq_between hc (hi j (mem_cons_self ..))
    obtain ⟨hle', hiff'⟩ := ih (find?_noteSeq c kind pid (j % 2 ^ 64)) hjs
    simp only [map_cons, lossesReported, missingBetween, List.length_append, length_range', forall_mem_append]
    rw [← hiff, ← hiff']
    constructor
    · exact Nat.add_le_add hle hle'
    · omega

theorem lossesReported_iff {c : Gpuprobe.Consumer} {kind pid : Nat}
    (hc : c.seqByStream.find? { kind := kind, pid := pid } = none) (hord : places.Pairwise (· < ·)) :
    lossesReported c kind pid (places.map (· % 2 ^ 64)) = (missingBetween places).length ↔
      ∀ m ∈ missingBetween places, m % 2 ^ 64 ≠ 2 ^ 64 - 1 := by
  cases places with
  | nil => exact iff_of_true rfl (by simp [missingBetween])
  | cons i is =>
    rw [map_cons, lossesReported, Gpuprobe.Consumer.noteSeq_first hc, Nat.zero_add]
    exact (lossesReported_after is (find?_noteSeq c kind pid (i % 2 ^ 64)) hord).2

/-- Batching and loss accounting fit together.  After any calls: less than a batch is
buffered; what was emitted is an in-order part of what was accepted; accepted is emitted plus
dropped at a flush plus buffered; the emitted batches are numbered in a row; and however many
of them are lost on the way, the consumer reports exactly the batches missing between the
first and the last delivered one, if and only if no batch numbered `2 ^ 64 - 1` is among them. -/
theorem batches_and_losses {N : Nat} (hN : 0 < N) (calls : List (BatchCall T)) :
    (Producer.run N calls).batch.buf.length < N ∧
    (Producer.run N calls).emittedRecords.Sublist (Producer.run N calls).accepted ∧
    (Producer.run N calls).accepted.length = (Producer.run N calls).emittedRecords.length +
        (Producer.run N calls).droppedAtFlush.length + (Producer.run N calls).batch.buf.length ∧
    (Producer.run N calls).batch.dropped =
      ((Producer.run N calls).refused + (Producer.run N calls).droppedAtFlush.length) % 2 ^ 64 ∧
    (Producer.run N calls).emitted.map Emission.seq =
      (List.range (Producer.run N calls).emitted.length).map (· % 2 ^ 64) ∧
    ∀ (c : Gpuprobe.Consumer) (kind pid : Nat) (places : List Nat),
      c.seqByStream.find? { kind := kind, pid := pid } = none →
      places.Pairwise (· < ·) → (∀ i ∈ places, i < (Producer.run N calls).emitted.length) →
      (lossesReported c kind pid ((Producer.run N calls).deliveredSeqs places) = (missingBetween places).length ↔
        ∀ m ∈ missingBetween places, m % 2 ^ 64 ≠ 2 ^ 64 - 1) := by
  obtain ⟨hp, hbuf⟩ := Producer.accounts_run hN calls
  refine ⟨hbuf, ?_, ?_, hp.dropped, hp.numbered, ?_⟩
  · rw [hp.whole]
    exact (Producer.emitted_sublist_flushed _).trans (sublist_append_left ..)
  · rw [hp.whole, List.length_append, Producer.length_flushed]
    rfl
  · intro c kind pid places hc hord hin
    rw [hp.deliveredSeqs_eq hin]
    exact lossesReported_iff hc hord

/-- Of three batches of one record the second is lost, and one loss is reported. -/
theorem batches_and_losses_three : lossesReported {} 1 7
      ((Producer.run 1 [.add 'a' true true, .add 'b' true true, .add 'c' true true]).deliveredSeqs [0, 2]) = 1 :=
  ((batches_and_losses (T := Char) (N := 1) (by decide)
    [.add 'a' true true, .add 'b' true true, .add 'c' true true]).2.2.2.2.2 {} 1 7 [0, 2] rfl
      (by decide) (by decide)).mpr (by decide)

theorem emitted_replicate (n : Nat) : (Producer.run 1 (List.replicate n (BatchCall.add () true true))).batch.buf = [] ∧
      (Producer.run 1 (List.replicate n (BatchCall.add () true true))).emitted.length = n := by
  induction n with
  | zero => exact ⟨rfl, rfl⟩
  | succ n ih =>
    obtain ⟨hbuf, hlen⟩ := ih
    rw [replicate_succ', Producer.run, foldl_append, foldl_cons, foldl_nil]
    rw [Producer.run] at hbuf hlen
    have hadd : ∀ b : Batch Unit, b.buf = [] → b.add 1 () true true = (true, .emitted { records := [()], seq := b.seq },
          { b with seq := (b.seq + 1) % 2 ^ 64, buf := [] }) := by
      intro b hb
      simp [Batch.add, Batch.flushLocked, hb]
    rw [Producer.step, hadd _ hbuf]
    refine ⟨rfl, ?_⟩
    rw [Producer.emitted_flushed, List.length_append]
    exact congrArg (· + 1) hlen

/-- A batch lost at the wrap of the counter is not reported. -/
theorem loss_at_wrap_not_reported : ¬ ∀ (calls : List (BatchCall Unit)) (places : List Nat), places.Pairwise (· < ·) →
      (∀ i ∈ places, i < (Producer.run 1 calls).emitted.length) →
      lossesReported {} 1 7 ((Producer.run 1 calls).deliveredSeqs places) = (missingBetween places).length := by
  intro h
  have hord : [2 ^ 64 - 2, 2 ^ 64].Pairwise (· < ·) := by decide
  have hin : ∀ i ∈ [2 ^ 64 - 2, 2 ^ 64], i < (Producer.run 1
      (List.replicate (2 ^ 64 + 1) (BatchCall.add () true true))).emitted.length := by
    rw [(emitted_replicate _).2]
    decide
  have hrun := h _ _ hord hin
  rw [(Producer.accounts_run Nat.one_pos _).1.deliveredSeqs_eq hin, lossesReported_iff rfl hord] at hrun
  exact hrun (2 ^ 64 - 1) (by decide) (by decide)

end PerfAgent.Shim
