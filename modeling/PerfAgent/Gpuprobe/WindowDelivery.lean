import PerfAgent.Gpu.SerializationEviction
import PerfAgent.Gpuprobe.Consumer

/-!
# The disclosure over a lossy transport

A process runs disjoint profiler bursts, reports each in one closed record, and sends
the records in batches with consecutive sequence numbers.  An arbitrary subset of the
batches is lost.  This file follows the delivered ones through `noteSeq` into the
window store and compares its answers with the bursts that really ran.

The history a store holds splits in two: the windows from the last restart of the
coverage on, which are an unbroken stretch of the bursts, and the older ones, which
are only positive evidence.  `Heard` is that invariant.
-/

namespace PerfAgent.Gpuprobe

open Gpu List

/-- One burst that ran, with the promise its record carries.  The bounds are those of
the record's fields, and an end of zero would not be an end. -/
structure Burst where
  startNs : Nat
  endNs : Nat
  serialized : Bool
  quietMs : Nat
  start_le : startNs ≤ endNs := by decide
  end_pos : 0 < endNs := by decide
  end_lt : endNs < 2 ^ 64 := by decide
  quiet_lt : quietMs < 2 ^ 32 := by decide

namespace Burst

def record (b : Burst) : WireWindow where
  startNs := b.startNs
  endNs := b.endNs
  mode := if b.serialized then 2 else 1
  nextStartDeltaMs := b.quietMs

def window (b : Burst) : SamplingWindow where
  startNs := b.startNs
  endNs := b.endNs
  mode := if b.serialized then .kernelSerialized else .continuous
  quietMs := b.quietMs

/-- Some instant of `[s, e]` lies in the burst. -/
def Meets (b : Burst) (s e : Nat) : Prop := s ≤ e ∧ b.startNs ≤ e ∧ s ≤ b.endNs

/-- The instant before which the burst's record says no other opens. -/
def quietUntil (b : Burst) : Nat := b.endNs + b.quietMs * 1000000

/-- What one burst's record may truthfully say when `c` comes later. -/
def Before (b c : Burst) : Prop :=
  b.endNs < c.startNs ∧ (b.quietMs = 0 ∨ (b.quietMs ≠ quietNever ∧ b.quietUntil ≤ c.startNs))

instance (b c : Burst) : Decidable (b.Before c) := inferInstanceAs (Decidable (_ ∧ _))

@[simp] theorem window_isOpen (b : Burst) : b.window.isOpen = false := by
  simp [SamplingWindow.isOpen, window, Nat.pos_iff_ne_zero.mp b.end_pos]

@[simp] theorem window_proves (b : Burst) : b.window.proves = b.serialized := by
  unfold SamplingWindow.proves SamplingWindow.serializes
  rw [window_isOpen]
  cases h : b.serialized <;> simp [window, h]

theorem window_intersects {b : Burst} {s e : Nat} (hse : s ≤ e) : b.window.intersects s e = true ↔ b.Meets s e := by
  rw [SamplingWindow.intersects_iff, window_isOpen]
  simp [window, Meets, hse]

theorem window_provenQuietUntil {b : Burst} (hne : b.quietMs ≠ quietNever) {q : Nat} :
    b.window.provenQuietUntil = some q ↔ b.quietMs ≠ 0 ∧ q = b.quietUntil ∧ b.quietUntil < 2 ^ 64 :=
  SamplingWindow.provenQuietUntil_eq_some b.window_isOpen hne b.end_lt b.quiet_lt

end Burst

def Truthful (bs : List Burst) : Prop := bs.Pairwise Burst.Before

instance (bs : List Burst) : Decidable (Truthful bs) :=
  inferInstanceAs (Decidable (List.Pairwise _ _))

/-! ## Sending -/

abbrev Sent := List Burst × Bool

def sent (l : List Sent) : List Burst := l.flatMap Prod.fst

def held (l : List Sent) : List Burst := (l.filter Prod.snd).flatMap Prod.fst

def silence (l : List Sent) : List Sent := (l.reverse.takeWhile fun b => !b.2).reverse

def unheard (l : List Sent) : List Burst := (silence l).flatMap Prod.fst

abbrev Pipe := Nat × Consumer × WindowStore

def send (pid : Nat) (p : Pipe) (b : Sent) : Pipe :=
  (p.1 + 1,
    if b.2 then
      Consumer.applyBatch WindowStore.emitSamplingWindow p.2
        { seq := p.1, pid := pid, samplingWindows := b.1.map Burst.record }
    else p.2)

/-- Send all batches, the first under the number `base`. -/
def deliver (pid base : Nat) (c : Consumer) (s : WindowStore) (l : List Sent) : Pipe :=
  l.foldl (send pid) (base, c, s)

section Lists

variable (l : List Sent) (bs : List Burst)

theorem deliver_snoc (pid base : Nat) (c : Consumer) (s : WindowStore) (b : Sent) :
    deliver pid base c s (l ++ [b]) = send pid (deliver pid base c s l) b := by
  simp [deliver]

@[simp] theorem sent_snoc (b : Sent) : sent (l ++ [b]) = sent l ++ b.1 := by simp [sent]

@[simp] theorem held_snoc_true : held (l ++ [(bs, true)]) = held l ++ bs := by
  simp [held, filter_append]

@[simp] theorem held_snoc_false : held (l ++ [(bs, false)]) = held l := by
  simp [held, filter_append]

@[simp] theorem silence_snoc_true : silence (l ++ [(bs, true)]) = [] := by simp [silence]

@[simp] theorem silence_snoc_false : silence (l ++ [(bs, false)]) = silence l ++ [(bs, false)] := by simp [silence]

@[simp] theorem unheard_snoc_true : unheard (l ++ [(bs, true)]) = [] := by simp [unheard]

@[simp] theorem unheard_snoc_false : unheard (l ++ [(bs, false)]) = unheard l ++ bs := by simp [unheard]

end Lists

variable (backend : GPUBackendID)

/-! ## A batch arrives

Bursts are reported in order, so a new window always goes to the end. -/

section Arrival

open WindowSet

def eventOf (pid lost : Nat) (b : Burst) : GPUSamplingWindow :=
  Consumer.samplingWindow backend pid b.record lost

theorem ofRecord_eventOf (pid lost : Nat) (b : Burst) : ofRecord (eventOf backend pid lost b) = b.window := by
  unfold ofRecord eventOf Consumer.samplingWindow Burst.record Burst.window
  cases b.serialized <;> rfl

theorem append_youngest {nw : SamplingWindow} {wins : List SamplingWindow}
    (h : ∀ v ∈ wins, v.startNs < nw.startNs) : append nw wins = wins ++ [nw] := by
  unfold append
  cases hl : wins.getLast? with
  | none => rw [getLast?_eq_none_iff.mp hl]; rfl
  | some tail =>
    have := h tail (mem_of_getLast? hl)
    exact if_neg (by omega)

variable {pid : Nat}

theorem add_youngest {s : WindowStore} {set : WindowSet} {b : Burst} (lost : Nat) (hset : s.setFor pid = some set)
    (hlt : ∀ v ∈ set.wins, v.startNs < b.startNs) (hroom : set.wins.length < s.maxPerPID) :
    (s.add (eventOf backend pid lost b)).byPID.find? pid =
      some { set.restart (eventOf backend pid lost b) with wins := set.wins ++ [b.window] } ∧
    (s.add (eventOf backend pid lost b)).maxPerPID = s.maxPerPID := by
  have hinv : ¬((eventOf backend pid lost b).endNs ≠ 0 ∧
      (eventOf backend pid lost b).endNs < (eventOf backend pid lost b).startNs) := by
    have := b.start_le
    rintro ⟨-, hlt⟩
    exact Nat.not_lt.mpr this hlt
  have hnone : supersede (ofRecord (eventOf backend pid lost b)) set.wins = none := by
    rw [ofRecord_eventOf]
    exact supersede_eq_none.mpr fun v hv => Nat.ne_of_lt (hlt v hv)
  obtain ⟨hby, hmax, -⟩ := WindowStore.add_of_setFor hinv hset
  refine ⟨?_, hmax⟩
  rw [hby, (add_room hnone hroom).1, ofRecord_eventOf, append_youngest hlt]
  exact AssocMap.find?_put_self _ _ _

variable {bs : List Burst}

theorem foldl_add_youngest : ∀ {s : WindowStore} {set : WindowSet}, s.byPID.find? pid = some set →
    set.haveCoverage = true → Truthful bs → (∀ v ∈ set.wins, ∀ b ∈ bs, v.startNs < b.startNs) →
    set.wins.length + bs.length ≤ s.maxPerPID →
    ((bs.map (eventOf backend pid 0)).foldl WindowStore.add s).byPID.find? pid =
      some { set with wins := set.wins ++ bs.map Burst.window } ∧
    ((bs.map (eventOf backend pid 0)).foldl WindowStore.add s).maxPerPID = s.maxPerPID := by
  induction bs with
  | nil => exact fun hf _ _ _ _ => ⟨by simpa using hf, rfl⟩
  | cons b bs ih =>
    intro s set hf hc htruth hlt hroom
    obtain ⟨hb, hbs⟩ := pairwise_cons.mp htruth
    have hset : s.setFor pid = some set := by rw [WindowStore.setFor, hf]
    have hkeep : set.restart (eventOf backend pid 0 b) = set := by
      unfold restart
      rw [if_neg (by simp [hc, eventOf, Consumer.samplingWindow])]
    rw [length_cons] at hroom
    obtain ⟨hf', hmax⟩ := add_youngest backend 0 hset (fun v hv => hlt v hv b mem_cons_self) (by omega)
    rw [hkeep] at hf'
    rw [map_cons, foldl_cons]
    refine (ih hf' hc hbs ?_ ?_).imp (fun h => ?_) fun h => h.trans hmax
    · intro v hv c hcb
      rcases mem_append.mp hv with hv | hv
      · exact hlt v hv c (mem_cons_of_mem _ hcb)
      · rw [mem_singleton.mp hv]
        have := (hb c hcb).1
        have := b.start_le
        change b.startNs < c.startNs
        omega
    · rw [hmax, List.length_append, length_singleton]
      omega
    · rw [h]
      simp

/-- A whole batch: its first record restarts the coverage after a gap, and when there
was no coverage yet. -/
theorem foldl_add_batch (lost : Nat) {b : Burst} {s : WindowStore} {set : WindowSet} (hset : s.setFor pid = some set)
    (htruth : Truthful (b :: bs)) (hlt : ∀ v ∈ set.wins, ∀ c ∈ b :: bs, v.startNs < c.startNs)
    (hroom : set.wins.length + (b :: bs).length ≤ s.maxPerPID) :
    ((Consumer.events backend pid lost ((b :: bs).map Burst.record)).foldl WindowStore.add s).byPID.find? pid =
      some { wins := set.wins ++ (b :: bs).map Burst.window
             coverageStartNs := if lost > 0 ∨ set.haveCoverage = false then b.startNs
               else set.coverageStartNs
             haveCoverage := true } ∧
    ((Consumer.events backend pid lost ((b :: bs).map Burst.record)).foldl
        WindowStore.add s).maxPerPID = s.maxPerPID := by
  have hevents : Consumer.events backend pid lost ((b :: bs).map Burst.record) =
      eventOf backend pid lost b :: bs.map (eventOf backend pid 0) := by
    simp [Consumer.events, eventOf, Function.comp_def]
  rw [length_cons] at hroom
  obtain ⟨hf, hmax⟩ := add_youngest backend lost hset (fun v hv => hlt v hv b mem_cons_self) (by omega)
  obtain ⟨hb, hbs⟩ := pairwise_cons.mp htruth
  have hrestart : set.restart (eventOf backend pid lost b) =
      { wins := set.wins
        coverageStartNs := if lost > 0 ∨ set.haveCoverage = false then b.startNs
          else set.coverageStartNs
        haveCoverage := true } := by
    unfold restart
    change (if lost > 0 ∨ set.haveCoverage = false then _ else _) = _
    by_cases hr : lost > 0 ∨ set.haveCoverage = false
    · rw [if_pos hr, if_pos hr]
      rfl
    · have hc : set.haveCoverage = true := by
        cases h : set.haveCoverage
        · exact absurd (.inr h) hr
        · rfl
      rw [if_neg hr, if_neg hr, ← hc]
  rw [hrestart] at hf
  rw [hevents, foldl_cons]
  refine (foldl_add_youngest backend hf rfl hbs ?_ ?_).imp (fun h => ?_) fun h => h.trans hmax
  · intro v hv c hcb
    rcases mem_append.mp hv with hv | hv
    · exact hlt v hv c (mem_cons_of_mem _ hcb)
    · rw [mem_singleton.mp hv]
      have := (hb c hcb).1
      have := b.start_le
      change b.startNs < c.startNs
      omega
  · rw [hmax, List.length_append, length_singleton]
    omega
  · rw [h]
    simp

end Arrival

/-! ## What the store has heard -/

def windowStream (pid : Nat) : SeqKey := { kind := kindSamplingWindow, pid := pid }

/-- What the consumer and the store know after the batches `l`: nothing, or a history
that ends in a stretch `b :: bs` without a hole, which the coverage starts with. -/
inductive Heard (pid base : Nat) (c : Consumer) (s : WindowStore) (l : List Sent) : Pipe → Prop
  | /-- No batch has arrived. -/
    nothing : held l = [] → Heard pid base c s l (base + l.length, c, s)
  | /-- Some batch has arrived. -/
    history {c' : Consumer} {s' : WindowStore} {set : WindowSet} {prev : Nat}
      (front old : List Burst) (b : Burst) (bs : List Burst) :
      sent l = front ++ (b :: bs) ++ unheard l → held l = old ++ b :: bs → old.Sublist front →
      c'.seqByStream.find? (windowStream pid) = some prev →
      prev + 1 + (silence l).length = base + l.length →
      s'.byPID.find? pid = some set → s'.maxPerPID = s.maxPerPID →
      set = ⟨(held l).map Burst.window, b.startNs, true⟩ →
      Heard pid base c s l (base + l.length, c', s')

theorem silence_eq_nil_of_length {l : List Sent} (h : (silence l).length = 0) : unheard l = [] := by
  rw [unheard, length_eq_zero_iff.mp h]
  rfl

section Step

variable {pid base : Nat} {c : Consumer} {s : WindowStore} {l : List Sent} {p : Pipe}

theorem Heard.lose (h : Heard pid base c s l p) (bs : List Burst) :
    Heard pid base c s (l ++ [(bs, false)]) (send pid p (bs, false)) := by
  cases h with
  | nothing hn =>
    have hheld : held (l ++ [(bs, false)]) = [] := by simpa using hn
    simpa [send, Nat.add_assoc] using Heard.nothing hheld
  | @history c' s' set prev front old b bs' hsent hheld hsub hseq hprev hset hmax hwins =>
    have hnext : send pid (base + l.length, c', s') (bs, false) =
        (base + (l ++ [((bs, false) : Sent)]).length, c', s') := by
      simp [send, Nat.add_assoc]
    rw [hnext]
    refine .history front old b bs' ?_ ?_ hsub hseq ?_ hset hmax ?_
    · rw [sent_snoc, hsent, unheard_snoc_false, append_assoc]
    · rw [held_snoc_false, hheld]
    · rw [silence_snoc_false, List.length_append, List.length_append, length_singleton]
      omega
    · rw [held_snoc_false, hwins]

variable {bs : List Burst}

/-- What an arriving batch leaves in the store and in the stream, by the gap that its
number shows. -/
theorem send_arrive {c' : Consumer} {s' : WindowStore} {set : WindowSet} {seq lost : Nat}
    (hlost : (c'.noteSeq kindSamplingWindow pid seq).1 = lost) (hset : s'.setFor pid = some set) {b : Burst}
    (htruth : Truthful (b :: bs)) (hlt : ∀ v ∈ set.wins, ∀ c ∈ b :: bs, v.startNs < c.startNs)
    (hroom : set.wins.length + (b :: bs).length ≤ s'.maxPerPID) :
    ∃ c'' s'', send pid (seq, c', s') (b :: bs, true) = (seq + 1, c'', s'') ∧
      c''.seqByStream.find? (windowStream pid) = some seq ∧ s''.maxPerPID = s'.maxPerPID ∧
      s''.byPID.find? pid = some ⟨set.wins ++ (b :: bs).map Burst.window,
          if lost > 0 ∨ set.haveCoverage = false then b.startNs else set.coverageStartNs, true⟩ := by
  obtain ⟨hsink, hstream, -⟩ := Consumer.applyBatch_spec WindowStore.emitSamplingWindow (c', s')
    { seq := seq, pid := pid, samplingWindows := (b :: bs).map Burst.record }
  obtain ⟨hfind, hmax⟩ := foldl_add_batch c'.backend lost hset htruth hlt hroom
  rw [hlost] at hsink
  refine ⟨(Consumer.applyBatch WindowStore.emitSamplingWindow (c', s')
      { seq := seq, pid := pid, samplingWindows := (b :: bs).map Burst.record }).1,
    (Consumer.applyBatch WindowStore.emitSamplingWindow (c', s')
      { seq := seq, pid := pid, samplingWindows := (b :: bs).map Burst.record }).2,
    by rw [send, if_pos rfl], ?_, ?_, ?_⟩
  · rw [hstream]
    exact AssocMap.find?_put_self _ _ _
  · rw [hsink]
    exact hmax
  · rw [hsink]
    exact hfind

theorem Heard.arrive (h : Heard pid base c s l p) (hfresh : c.seqByStream.find? (windowStream pid) = none)
    (hempty : s.byPID = ∅) (hpids : 0 < s.maxPIDs) {b : Burst} (htruth : Truthful (sent l ++ b :: bs))
    (hseq : base + l.length < 2 ^ 64) (hroom : (held l ++ b :: bs).length ≤ s.maxPerPID) :
    Heard pid base c s (l ++ [(b :: bs, true)]) (send pid p (b :: bs, true)) := by
  obtain ⟨-, htruth', hbefore⟩ := pairwise_append.mp htruth
  have hnext : base + (l ++ [((b :: bs, true) : Sent)]).length = base + l.length + 1 := by simp; omega
  rw [List.length_append] at hroom
  cases h with
  | nothing hn =>
    have hset : s.setFor pid = some {} := by
      rw [WindowStore.setFor, hempty]
      exact if_neg (Nat.not_le.mpr hpids)
    obtain ⟨c'', s'', hsend, hstream, hmax, hfind⟩ :=
      send_arrive (Consumer.noteSeq_first hfresh (base + l.length)) hset htruth' (by simp) (by simp at hroom ⊢; omega)
    rw [hsend, ← hnext]
    refine .history (sent l) [] b bs ?_ ?_ (nil_sublist _) hstream ?_ hfind hmax ?_
    · simp
    · simp [hn]
    · simp; omega
    · simp [hn]
  | @history c' s' set prev front old b' bs' hsent hheld hsub hprev hcount hset hmax hwins =>
    have hheldsub : (held l).Sublist (sent l) := by
      rw [hheld, hsent]
      exact (hsub.append (List.Sublist.refl _)).trans (sublist_append_left _ _)
    have hlost : (c'.noteSeq kindSamplingWindow pid (base + l.length)).1 = (silence l).length := by
      rw [← hcount]
      exact Consumer.noteSeq_gap hprev (by omega)
    have hyoung : ∀ v ∈ set.wins, ∀ c ∈ b :: bs, v.startNs < c.startNs := by
      intro v hv d hd
      rw [hwins] at hv
      obtain ⟨a, ha, rfl⟩ := mem_map.mp hv
      have := (hbefore a (hheldsub.subset ha) d hd).1
      have := a.start_le
      change a.startNs < d.startNs
      omega
    obtain ⟨c'', s'', hsend, hstream, hmax', hfind⟩ := send_arrive hlost
      (by rw [WindowStore.setFor, hset]) htruth' hyoung
      (by rw [hmax, hwins]; simpa using hroom)
    rw [hsend, ← hnext]
    by_cases hgap : (silence l).length = 0
    · have hun := silence_eq_nil_of_length hgap
      rw [hun, append_nil] at hsent
      refine .history front old b' (bs' ++ b :: bs) ?_ ?_ hsub hstream ?_ hfind (hmax'.trans hmax) ?_
      · simp [hsent]
      · simp [hheld]
      · simp; omega
      · simp [hwins, hgap]
    · refine .history (sent l) (held l) b bs ?_ ?_
        hheldsub hstream ?_ hfind (hmax'.trans hmax) ?_
      · simp
      · simp
      · simp; omega
      · simp [hwins, Nat.pos_of_ne_zero hgap]

end Step

theorem heard_deliver {pid : Nat} (base : Nat) {c : Consumer} {s : WindowStore}
    (hfresh : c.seqByStream.find? (windowStream pid) = none) (hempty : s.byPID = ∅)
    (hpids : 0 < s.maxPIDs) : ∀ {l : List Sent}, (∀ b ∈ l, b.1 ≠ []) → Truthful (sent l) →
    base + l.length ≤ 2 ^ 64 → (held l).length ≤ s.maxPerPID →
    Heard pid base c s l (deliver pid base c s l) := by
  intro l
  induction l using List.reverseRecOn with
  | nil => exact fun _ _ _ _ => .nothing rfl
  | append_singleton l b ih =>
    intro hne htruth hseq hroom
    rw [deliver_snoc]
    rw [sent_snoc] at htruth
    rw [List.length_append, length_singleton] at hseq
    have hheld : (held l).length ≤ (held (l ++ [b])).length := by
      obtain ⟨bs, arrives⟩ := b
      cases arrives <;> simp
    have hl := ih (fun b hb => hne b (mem_append_left _ hb))
      (pairwise_append.mp htruth).1 (by omega) (hheld.trans hroom)
    obtain ⟨bs, arrives⟩ := b
    cases arrives with
    | false => exact hl.lose bs
    | true =>
      cases bs with
      | nil => exact absurd rfl (hne ([], true) (by simp))
      | cons b bs =>
        rw [held_snoc_true] at hroom
        exact hl.arrive hfresh hempty hpids htruth (by omega) hroom

/-! ## The verdicts -/

section Verdicts

variable {front old bs unheard : List Burst} {b : Burst} {set : WindowSet}

theorem coverage_le (htruth : Truthful (front ++ (b :: bs) ++ unheard)) (hold : old.Sublist front)
    (hset : set = ⟨(old ++ b :: bs).map Burst.window, b.startNs, true⟩) {e : Nat}
    (hend : ∃ c, set.coverageEndNs = some c ∧ e ≤ c) {x : Burst} (hx : x ∈ unheard)
    (hmeets : x.startNs ≤ e) :
    ∃ d ∈ b :: bs, x.startNs = d.quietUntil := by
  obtain ⟨c, hc, hle⟩ := hend
  obtain ⟨hseg, -, hafter⟩ := pairwise_append.mp htruth
  obtain ⟨-, -, hbefore⟩ := pairwise_append.mp hseg
  rw [WindowSet.coverageEndNs_eq (by rw [hset]), hset] at hc
  rcases WindowSet.coverageEndFrom_attained hc with h | ⟨w, hw, hcov, hatt⟩
  · cases h
  · obtain ⟨d, hd, rfl⟩ := mem_map.mp hw
    rw [Burst.window_isOpen] at hatt
    have hd' : d ∈ b :: bs := by
      rcases mem_append.mp hd with hd | hd
      · -- an older window starts before the coverage does
        have h1 := (hbefore d (hold.subset hd) b mem_cons_self).1
        have h2 := d.start_le
        change b.startNs ≤ d.startNs at hcov
        omega
      · exact hd
    have hdx := hafter d (mem_append_right _ hd') x hx
    rcases hatt with ⟨hopen, -⟩ | ⟨-, hend | hq⟩
    · cases hopen
    · have := hdx.1
      change c = d.endNs at hend
      omega
    · rcases hdx.2 with h0 | ⟨hnever, hquiet⟩
      · simp [SamplingWindow.provenQuietUntil, Burst.window, h0] at hq
      · obtain ⟨-, hq, -⟩ := (Burst.window_provenQuietUntil hnever).mp hq
        exact ⟨d, hd', by omega⟩

theorem first_after (htruth : Truthful ((b :: bs) ++ unheard)) {d x : Burst} (hd : d ∈ b :: bs)
    (hx : x ∈ unheard) (heq : x.startNs = d.quietUntil) :
    (b :: bs).getLast? = some d ∧ unheard.head? = some x := by
  obtain ⟨hseg, hun, hafter⟩ := pairwise_append.mp htruth
  -- nothing fits between a burst and one that starts when its promise ends
  have hnone : ∀ y : Burst, d.Before y → ¬y.Before x := fun y hdy hyx => by
    have h1 := hdy.1
    have h2 := hyx.1
    have h3 := y.start_le
    rcases hdy.2 with h0 | ⟨-, hq⟩
    · rw [heq, Burst.quietUntil, h0] at h2
      omega
    · omega
  constructor
  · obtain ⟨pre, post, hsplit⟩ := append_of_mem hd
    cases post with
    | nil => rw [hsplit, getLast?_append]; simp
    | cons y post =>
      rw [hsplit] at hseg
      have hdy := (pairwise_cons.mp (pairwise_append.mp hseg).2.1).1 y mem_cons_self
      exact absurd (hafter y (by rw [hsplit]; simp) x hx) (hnone y hdy)
  · cases unheard with
    | nil => simp at hx
    | cons y ys =>
      rcases mem_cons.mp hx with rfl | hx
      · rfl
      · exact absurd ((pairwise_cons.mp hun).1 x hx) (hnone y (hafter d hd y mem_cons_self))

def SoundFor (bursts : List Burst) (s e : Nat) (v : SerializationState) : Prop :=
  (v = .notSerialized → ∀ b ∈ bursts, b.serialized = true → ¬b.Meets s e) ∧
    (v = .serialized → ∃ b ∈ bursts, b.serialized = true ∧ b.Meets s e)

/-- Where no serialized burst starts at the end of the last promise heard, the history
answers right. -/
theorem soundFor_of_history (htruth : Truthful (front ++ (b :: bs) ++ unheard)) (hold : old.Sublist front)
    (hset : set = ⟨(old ++ b :: bs).map Burst.window, b.startNs, true⟩)
    (hcond : ∀ d ∈ (old ++ b :: bs).getLast?, ∀ x ∈ unheard.head?, x.serialized = true →
      x.startNs ≠ d.quietUntil) (s e : Nat) :
    SoundFor (front ++ (b :: bs) ++ unheard) s e (set.classify s e) := by
  have hwins : set.wins = (old ++ b :: bs).map Burst.window := by rw [hset]
  obtain ⟨hseg, -, -⟩ := pairwise_append.mp htruth
  obtain ⟨-, -, hbefore⟩ := pairwise_append.mp hseg
  constructor
  · intro hv x hx hser hmeets
    obtain ⟨hse, -, hall, hstart, hend⟩ := WindowSet.classify_eq_notSerialized.mp hv
    rw [hset] at hstart
    rcases mem_append.mp hx with hx | hx
    · rcases mem_append.mp hx with hx | hx
      · -- before the coverage
        have h1 := (hbefore x hx b mem_cons_self).1
        have h2 := hmeets.2.2
        change b.startNs ≤ s at hstart
        omega
      · -- held
        have hw : x.window ∈ set.wins := by
          rw [hwins]
          exact mem_map_of_mem (mem_append_right _ hx)
        have hp := (hall _ hw ((Burst.window_intersects hse).mpr hmeets)).1
        rw [Burst.window_proves, hser] at hp
        cases hp
    · obtain ⟨d, hd, heq⟩ := coverage_le htruth hold hset hend hx hmeets.2.1
      rw [append_assoc] at htruth
      obtain ⟨hlast, hhead⟩ := first_after (pairwise_append.mp htruth).2.1 hd hx heq
      refine hcond d ?_ x hhead hser heq
      rw [getLast?_append, hlast]
      rfl
  · intro hv
    obtain ⟨hse, -, w, hw, hi, hp⟩ := WindowSet.classify_eq_serialized.mp hv
    rw [hwins] at hw
    obtain ⟨d, hd, rfl⟩ := mem_map.mp hw
    rw [Burst.window_proves] at hp
    refine ⟨d, mem_append_left _ ?_, hp, (Burst.window_intersects hse).mp hi⟩
    exact (hold.append (List.Sublist.refl (b :: bs))).subset hd

theorem classify_at_promise (htruth : Truthful (front ++ (b :: bs) ++ unheard)) (hold : old.Sublist front)
    (hset : set = ⟨(old ++ b :: bs).map Burst.window, b.startNs, true⟩) {d x : Burst}
    (hd : (old ++ b :: bs).getLast? = some d) (hx : unheard.head? = some x)
    (heq : x.startNs = d.quietUntil) :
    set.classify x.startNs x.startNs = .notSerialized := by
  obtain ⟨-, -, hafter⟩ := pairwise_append.mp htruth
  have hheld : (old ++ b :: bs).Sublist (front ++ b :: bs) := hold.append (List.Sublist.refl _)
  have hxmem : x ∈ unheard := mem_of_head? hx
  have hdmem : d ∈ b :: bs := by
    rw [getLast?_append] at hd
    cases hl : (b :: bs).getLast? with
    | none => simp at hl
    | some d' =>
      rw [hl] at hd
      exact mem_of_getLast? (hl.trans (by simpa using hd))
  have hbx : ∀ a ∈ old ++ b :: bs, a.endNs < x.startNs := fun a ha =>
    (hafter a (hheld.subset ha) x hxmem).1
  have hcov : b.startNs ≤ d.startNs := by
    have hpw := (pairwise_append.mp (pairwise_append.mp htruth).1).2.1
    rcases mem_cons.mp hdmem with rfl | hdmem
    · exact Nat.le_refl _
    · have h1 := (rel_of_pairwise_cons hpw hdmem).1
      have h2 := b.start_le
      omega
  have hq : d.window.provenQuietUntil = some x.startNs := by
    have hdx := hafter d (mem_append_right _ hdmem) x hxmem
    have hne : d.quietMs ≠ 0 := fun h0 => by
      have := hdx.1
      rw [heq, Burst.quietUntil, h0] at this
      omega
    obtain ⟨hnever, -⟩ := hdx.2.resolve_left hne
    have h1 := x.start_le
    have h2 := x.end_lt
    exact (Burst.window_provenQuietUntil hnever).mpr ⟨hne, heq, by omega⟩
  refine WindowSet.classify_eq_notSerialized.mpr ⟨Nat.le_refl _, by rw [hset], ?_, ?_, ?_⟩
  · intro w hw hi
    rw [hset] at hw
    obtain ⟨a, ha, rfl⟩ := mem_map.mp hw
    have h1 := hbx a ha
    have h2 := ((Burst.window_intersects (Nat.le_refl _)).mp hi).2.2
    omega
  · rw [hset]
    have h1 := hbx d (mem_append_right _ hdmem)
    have h2 := d.start_le
    change b.startNs ≤ x.startNs
    omega
  · rw [WindowSet.coverageEndNs_eq (by rw [hset]), hset]
    refine WindowSet.le_coverageEndFrom (w := d.window) ?_ ?_ hcov hq none
    · intro w hw
      obtain ⟨a, -, rfl⟩ := mem_map.mp hw
      exact a.window_isOpen
    · exact mem_map_of_mem (mem_append_right _ hdmem)

end Verdicts

/-- Over every pattern of loss, the store is right about every interval exactly when the
first burst it has not heard of does not serialize from the very instant at which the
last promise it has heard ends. -/
theorem verdict_sound_iff (pid base : Nat) (backend : GPUBackendID) (maxPerPID maxPIDs : Int)
    (l : List Sent) (hne : ∀ b ∈ l, b.1 ≠ []) (htruth : Truthful (sent l))
    (hseq : base + l.length ≤ 2 ^ 64)
    (hroom : (held l).length ≤ (newWindowStore maxPerPID maxPIDs).maxPerPID) :
    (∀ s e, SoundFor (sent l) s e
      ((deliver pid base { backend := backend } (newWindowStore maxPerPID maxPIDs) l).2.2.classify pid s e)) ↔
    ∀ d ∈ (held l).getLast?, ∀ x ∈ (unheard l).head?, x.serialized = true → x.startNs ≠ d.quietUntil := by
  have hpids : 0 < (newWindowStore maxPerPID maxPIDs).maxPIDs := by
    simp only [newWindowStore]
    split_ifs
    · decide
    · omega
  have hfresh : ({ backend := backend } : Consumer).seqByStream.find? (windowStream pid) = none :=
    rfl
  have hheard := heard_deliver base hfresh rfl hpids hne htruth hseq hroom
  generalize deliver pid base { backend := backend } (newWindowStore maxPerPID maxPIDs) l = p at *
  cases hheard with
  | nothing hn =>
    constructor
    · intro _ d hd
      rw [hn] at hd
      cases hd
    · intro _ s e
      have hunknown : (newWindowStore maxPerPID maxPIDs).classify pid s e = .unknown := by
        unfold WindowStore.classify
        split_ifs
        · rfl
        · rfl
      rw [hunknown]
      exact ⟨(fun heq => by cases heq), fun heq => by cases heq⟩
  | @history c' s' set prev front old b bs hsent hheld hold _ _ hfind _ hset =>
    have hclass : ∀ s e, s'.classify pid s e = set.classify s e := fun s e => by
      unfold WindowStore.classify
      rw [hfind]
      split_ifs with hlt
      · rw [WindowSet.classify, if_pos hlt]
      · rfl
    rw [hheld] at hset
    rw [hsent] at htruth ⊢
    rw [hheld]
    constructor
    · intro hsound d hd x hx hser heq
      refine (hsound x.startNs x.startNs).1 ?_ x ?_ hser ?_
      · rw [hclass]
        exact classify_at_promise htruth hold hset hd hx heq
      · exact mem_append_right _ (mem_of_head? hx)
      · exact ⟨Nat.le_refl _, Nat.le_refl _, x.start_le⟩
    · intro hcond s e
      rw [hclass]
      exact soundFor_of_history htruth hold hset hcond s e

/-- Two serialized bursts, the second lost, which opens a nanosecond after the end of
the millisecond of quiet that the first one promised. -/
def lateSecond : List Sent :=
  [([{ startNs := 10, endNs := 20, serialized := true, quietMs := 1 }], true),
   ([{ startNs := 1000021, endNs := 1000030, serialized := true, quietMs := 0 }], false)]

theorem verdict_sound_late_second : (∀ b ∈ lateSecond, b.1 ≠ []) ∧ Truthful (sent lateSecond) ∧
    ∀ s e, SoundFor (sent lateSecond) s e
      ((deliver 1 0 { backend := "" } (newWindowStore 2 1) lateSecond).2.2.classify 1 s e) :=
  ⟨by decide, by decide, (verdict_sound_iff 1 0 "" 2 1 lateSecond (by decide) (by decide) (by decide)
      (by decide)).mpr (by decide)⟩

/-- The second burst opens exactly when the quiet promised by the first is over. -/
def promptSecond : List Sent :=
  [([{ startNs := 10, endNs := 20, serialized := true, quietMs := 1 }], true),
   ([{ startNs := 1000020, endNs := 1000030, serialized := true, quietMs := 0 }], false)]

theorem verdict_not_sound : ¬ ∀ (pid base : Nat) (backend : GPUBackendID) (maxPerPID maxPIDs : Int) (l : List Sent),
      (∀ b ∈ l, b.1 ≠ []) → Truthful (sent l) → base + l.length ≤ 2 ^ 64 →
      (held l).length ≤ (newWindowStore maxPerPID maxPIDs).maxPerPID →
      ∀ s e, SoundFor (sent l) s e ((deliver pid base { backend := backend }
        (newWindowStore maxPerPID maxPIDs) l).2.2.classify pid s e) := by
  intro h
  have hs := h 1 0 "" 2 1 promptSecond (by decide) (by decide) (by decide) (by decide)
    1000020 1000020
  refine hs.1 (by decide) ⟨1000020, 1000030, true, 0, by decide, by decide, by decide, by decide⟩
    (by simp [promptSecond, sent]) rfl ⟨by decide, by decide, by decide⟩

end PerfAgent.Gpuprobe
