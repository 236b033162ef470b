import PerfAgent.Debuginfod.Routing
import Mathlib.Algebra.Order.Group.Multiset
import Mathlib.Data.List.Induction
import Mathlib.Data.Multiset.Range

/-!
# Every address has a frame

Where `routeIPs` puts each address, what is written at its position, and what the frame there depends on.
-/

namespace PerfAgent.Debuginfod

open List AssocMap

open Procmap (Mapping)
open Symbolize (Frame PtLoad fileOffsetToVirtualAddress)

variable {κ : Type*}

/-! ## Batches -/

namespace Batch

@[simp] theorem entries_empty : (∅ : Batch).entries = [] := rfl

@[simp] theorem indices_empty : (∅ : Batch).indices = [] := rfl

theorem entries_push (b : Batch) (i : Nat) (ip : UInt64) : (b.push i ip).entries = b.entries ++ [(i, ip)] :=
  zip_append b.aligned

@[simp] theorem indices_push (b : Batch) (i : Nat) (ip : UInt64) : (b.push i ip).indices = b.indices ++ [i] := rfl

@[simp] theorem ips_push (b : Batch) (i : Nat) (ip : UInt64) : (b.push i ip).ips = b.ips ++ [ip] := rfl

theorem map_fst_entries (b : Batch) : b.entries.map Prod.fst = b.indices :=
  map_fst_zip (Nat.le_of_eq b.aligned)

theorem map_snd_entries (b : Batch) : b.entries.map Prod.snd = b.ips :=
  map_snd_zip (Nat.le_of_eq b.aligned.symm)

theorem length_entries (b : Batch) : b.entries.length = b.indices.length := by
  rw [← b.map_fst_entries, length_map]

theorem indices_eq_nil_of_ips {b : Batch} (h : b.ips = []) : b.indices = [] :=
  length_eq_zero_iff.mp (by rw [b.aligned, h, length_nil])

theorem mem_entries_of_mem_push {b : Batch} {i : Nat} {ip : UInt64} {e : Nat × UInt64}
    (h : e ∈ (b.push i ip).entries) : e ∈ b.entries ∨ e = (i, ip) := by
  rw [entries_push, mem_append, mem_singleton] at h
  exact h

end Batch

/-! ## Where an address goes -/

/-- The route of an address, with the mapping and the debug file of its bucket. -/
inductive Place where
  | skip
  | process
  | bucket (m : Mapping) (debugPath : Name)
deriving DecidableEq

def ClassifyResult.place (r : ClassifyResult) (m : Mapping) : Place :=
  match r.route with
  | .skip => .skip
  | .processMode => .process
  | .fileMode => .bucket m r.debugPath

def Routing.place (st : Routing κ) (mappings : List Mapping) (ip : UInt64) : Option Place :=
  match findMapping mappings ip with
  | none => some .process
  | some m => (st.routesByMapping.find? m.start).map fun r => r.place m

def Apart (m m' : Mapping) : Prop := m.limit ≤ m'.start ∨ m'.limit ≤ m.start

instance : Std.Symm Apart := ⟨fun _ _ => Or.symm⟩

variable {m : Mapping}

theorem mem_of_findMapping {mappings : List Mapping} {ip : UInt64} (h : findMapping mappings ip = some m) :
    m ∈ mappings ∧ m.start < m.limit := by
  have hp := find?_some h
  rw [Bool.and_eq_true, decide_eq_true_eq, decide_eq_true_eq] at hp
  exact ⟨mem_of_find?_eq_some h, UInt64.lt_of_le_of_lt hp.1 hp.2⟩

theorem eq_of_start_eq {mappings : List Mapping} (hdisj : mappings.Pairwise Apart) {m' : Mapping} (hm : m ∈ mappings)
    (hm' : m' ∈ mappings) (hlt : m.start < m.limit) (hlt' : m'.start < m'.limit) (h : m.start = m'.start) : m = m' := by
  by_contra hne
  have hapart : Apart m m' := hdisj.forall hm hm' hne
  rcases hapart with hle | hle
  · rw [← h] at hle
    exact UInt64.not_lt.mpr hle hlt
  · rw [h] at hle
    exact UInt64.not_lt.mpr hle hlt'

theorem place_eq_bucket_iff {st : Routing κ} {mappings : List Mapping} {ip : UInt64} {path : Name} :
    st.place mappings ip = some (.bucket m path) ↔ findMapping mappings ip = some m ∧
        ∃ r, st.routesByMapping.find? m.start = some r ∧ r.route = .fileMode ∧ r.debugPath = path := by
  unfold Routing.place
  cases hm : findMapping mappings ip with
  | none => simp
  | some m' =>
    simp only [Option.map_eq_some_iff, Option.some.injEq]
    constructor
    · rintro ⟨r, hr, hp⟩
      unfold ClassifyResult.place at hp
      cases hroute : r.route <;> simp only [hroute, Place.bucket.injEq, reduceCtorEq] at hp
      obtain ⟨rfl, rfl⟩ := hp
      exact ⟨rfl, r, hr, hroute, rfl⟩
    · rintro ⟨rfl, r, hr, hroute, rfl⟩
      exact ⟨r, hr, by simp only [ClassifyResult.place, hroute]⟩

/-! ## The loop over the addresses -/

/-- The addresses seen so far are in the batch, in the buckets or skipped, each once and where it belongs. -/
structure Routed (mappings : List Mapping) (before : Nat) (ips : List UInt64) (st : Routing κ) : Prop where
  indices : Multiset.range ips.length =
    st.processBatch.indices + (st.skipped + st.fileBuckets.sum fun b => (b.held.indices : Multiset Nat))
  process : ∀ e ∈ st.processBatch.entries, ips[e.1]? = some e.2 ∧ st.place mappings e.2 = some .process
  skipped : ∀ i ∈ st.skipped, ∃ ip, ips[i]? = some ip ∧ st.place mappings ip = some .skip
  opened : ∀ s b, st.fileBuckets.find? s = some b →
    b.mapping.start = s ∧ ∃ ip, st.place mappings ip = some (.bucket b.mapping b.debugPath)
  held : ∀ s b, st.fileBuckets.find? s = some b → ∀ e ∈ b.held.entries,
    ips[e.1]? = some e.2 ∧ st.place mappings e.2 = some (.bucket b.mapping b.debugPath)
  counted : st.stats.classified = before + ips.length

theorem Routing.classifyFor_cases (c : Callees κ) (st : Routing κ) (m : Mapping) :
    (∃ r, st.routesByMapping.find? m.start = some r ∧ st.classifyFor c m = (r, st)) ∨
      (st.routesByMapping.find? m.start = none ∧ ∃ r classifier, st.classifyFor c m =
        (r, { st with classifier, routesByMapping := st.routesByMapping.put m.start r })) := by
  unfold Routing.classifyFor
  cases h : st.routesByMapping.find? m.start with
  | none => exact .inr ⟨rfl, _, _, rfl⟩
  | some r => exact .inl ⟨r, rfl, rfl⟩

theorem Routing.find?_classifyFor (c : Callees κ) (st : Routing κ) (m : Mapping) :
    (st.classifyFor c m).2.routesByMapping.find? m.start = some (st.classifyFor c m).1 := by
  rcases st.classifyFor_cases c m with ⟨r, h, heq⟩ | ⟨-, r, classifier, heq⟩
  · rw [heq, h]
  · rw [heq, find?_put_self]

theorem Routing.place_classifyFor {c : Callees κ} {st : Routing κ} {mappings : List Mapping} {ip : UInt64}
    {place : Place} (h : st.place mappings ip = some place) :
    (st.classifyFor c m).2.place mappings ip = some place := by
  rcases st.classifyFor_cases c m with ⟨r, -, heq⟩ | ⟨hnone, r, classifier, heq⟩
  · rw [heq, h]
  · rw [heq, ← h]
    unfold Routing.place at h ⊢
    cases hm : findMapping mappings ip with
    | none => rfl
    | some m' =>
      rw [hm] at h
      have hne : m'.start ≠ m.start := by
        intro he
        simp [he, hnone] at h
      simp only [find?_put_of_ne _ _ hne]

theorem getElem?_concat_of_eq_some {α : Type*} {l : List α} {i : Nat} {a b : α} (h : l[i]? = some a) :
    (l ++ [b])[i]? = some a := by
  rw [getElem?_append_left (List.getElem?_eq_some_iff.mp h).1, h]

namespace Routed

variable {mappings : List Mapping} {before : Nat} {ips : List UInt64} {st : Routing κ} {ip : UInt64}

theorem classifyFor (h : Routed mappings before ips st) (c : Callees κ) (m : Mapping) :
    Routed mappings before ips (st.classifyFor c m).2 := by
  have hplace {ip place} (hp : st.place mappings ip = some place) :
      (st.classifyFor c m).2.place mappings ip = some place := Routing.place_classifyFor hp
  rcases st.classifyFor_cases c m with ⟨r, -, heq⟩ | ⟨-, r, classifier, heq⟩
  · rw [heq]
    exact h
  · rw [heq] at hplace ⊢
    exact
      { indices := h.indices
        process := fun e he => ⟨(h.process e he).1, hplace (h.process e he).2⟩
        skipped := fun i hi =>
          have ⟨ip, hip, hp⟩ := h.skipped i hi
          ⟨ip, hip, hplace hp⟩
        opened := fun s b hb =>
          have ⟨hs, ip, hp⟩ := h.opened s b hb
          ⟨hs, ip, hplace hp⟩
        held := fun s b hb e he => ⟨(h.held s b hb e he).1, hplace (h.held s b hb e he).2⟩
        counted := h.counted }

theorem toProcess (h : Routed mappings before ips st) (hp : st.place mappings ip = some .process) :
    Routed mappings before (ips ++ [ip]) (st.toProcess ips.length ip) where
  indices := by
    rw [List.length_append, length_singleton, Multiset.range_succ, h.indices]
    change _ = ((st.processBatch.indices ++ [ips.length] : List Nat) : Multiset Nat) + _
    rw [← Multiset.coe_add, Multiset.coe_singleton, add_comm (st.processBatch.indices : Multiset Nat) {_},
      add_assoc, Multiset.singleton_add]
    rfl
  process := fun e he => by
    rcases Batch.mem_entries_of_mem_push he with he | rfl
    · exact ⟨getElem?_concat_of_eq_some (h.process e he).1, (h.process e he).2⟩
    · exact ⟨by simp, hp⟩
  skipped := fun i hi =>
    have ⟨ip, hip, hplace⟩ := h.skipped i hi
    ⟨ip, getElem?_concat_of_eq_some hip, hplace⟩
  opened := h.opened
  held := fun s b hb e he => ⟨getElem?_concat_of_eq_some (h.held s b hb e he).1, (h.held s b hb e he).2⟩
  counted := by
    have hc := h.counted
    simp only [Routing.toProcess, Stats.classified, List.length_append, length_singleton] at hc ⊢
    omega

theorem toSkipped (h : Routed mappings before ips st) (hp : st.place mappings ip = some .skip) :
    Routed mappings before (ips ++ [ip]) (st.toSkipped ips.length) where
  indices := by
    rw [List.length_append, length_singleton, Multiset.range_succ, h.indices]
    change _ = _ + (((ips.length :: st.skipped : List Nat) : Multiset Nat) + _)
    rw [← Multiset.cons_coe, Multiset.cons_add, Multiset.add_cons]
    rfl
  process := fun e he => ⟨getElem?_concat_of_eq_some (h.process e he).1, (h.process e he).2⟩
  skipped := fun i hi => by
    rcases mem_cons.mp hi with rfl | hi
    · exact ⟨ip, by simp, hp⟩
    · obtain ⟨ip, hip, hplace⟩ := h.skipped i hi
      exact ⟨ip, getElem?_concat_of_eq_some hip, hplace⟩
  opened := h.opened
  held := fun s b hb e he => ⟨getElem?_concat_of_eq_some (h.held s b hb e he).1, (h.held s b hb e he).2⟩
  counted := by
    have hc := h.counted
    simp only [Routing.toSkipped, Stats.classified, List.length_append, length_singleton] at hc ⊢
    omega

theorem bucket_eq (h : Routed mappings before ips st) (hdisj : mappings.Pairwise Apart) {path : Name}
    (hp : st.place mappings ip = some (.bucket m path)) {b : FileBucket} (hb : st.fileBuckets.find? m.start = some b) :
    b.mapping = m ∧ b.debugPath = path := by
  obtain ⟨hm, r, hr, -, hpath⟩ := place_eq_bucket_iff.mp hp
  obtain ⟨hstart, ip', hp'⟩ := h.opened _ b hb
  obtain ⟨hm', r', hr', -, hpath'⟩ := place_eq_bucket_iff.mp hp'
  obtain ⟨hmem, hlt⟩ := mem_of_findMapping hm
  obtain ⟨hmem', hlt'⟩ := mem_of_findMapping hm'
  refine ⟨eq_of_start_eq hdisj hmem' hmem hlt' hlt hstart, ?_⟩
  rw [hstart, hr, Option.some.injEq] at hr'
  rw [← hpath, ← hpath', hr']

theorem toBucket (h : Routed mappings before ips st) (hdisj : mappings.Pairwise Apart) {m : Mapping}
    {path : Name} (hp : st.place mappings ip = some (.bucket m path)) :
    Routed mappings before (ips ++ [ip]) (st.toBucket m path ips.length ip) := by
  set b := (st.fileBuckets.find? m.start).getD { mapping := m, debugPath := path } with hbdef
  have hb : b.mapping = m ∧ b.debugPath = path := by
    cases hfind : st.fileBuckets.find? m.start with
    | none => simp [hbdef, hfind]
    | some b' =>
      rw [hfind, Option.getD_some] at hbdef
      rw [hbdef]
      exact h.bucket_eq hdisj hp hfind
  have hheld : ∀ e ∈ b.held.entries,
      ips[e.1]? = some e.2 ∧ st.place mappings e.2 = some (.bucket b.mapping b.debugPath) := by
    cases hfind : st.fileBuckets.find? m.start with
    | none => simp [hbdef, hfind]
    | some b' =>
      rw [hfind, Option.getD_some] at hbdef
      rw [hbdef]
      exact h.held _ b' hfind
  have hsum : st.fileBuckets.sum (fun b => (b.held.indices : Multiset Nat)) =
      b.held.indices + (st.fileBuckets.del m.start).sum fun b => (b.held.indices : Multiset Nat) := by
    cases hfind : st.fileBuckets.find? m.start with
    | none => simp [hbdef, hfind, del_of_find?_eq_none hfind]
    | some b' =>
      rw [hfind, Option.getD_some] at hbdef
      rw [hbdef]
      exact sum_of_find? _ hfind
  have hfind : (st.toBucket m path ips.length ip).fileBuckets =
      st.fileBuckets.put m.start { b with held := b.held.push ips.length ip } := rfl
  constructor
  case indices =>
    rw [List.length_append, length_singleton, Multiset.range_succ, h.indices, hfind, sum_put, hsum,
      Batch.indices_push, ← Multiset.coe_add, Multiset.coe_singleton, add_comm (b.held.indices : Multiset Nat) {_},
      add_assoc, Multiset.singleton_add, Multiset.add_cons, Multiset.add_cons]
    rfl
  case process =>
    exact fun e he => ⟨getElem?_concat_of_eq_some (h.process e he).1, (h.process e he).2⟩
  case skipped =>
    intro i hi
    obtain ⟨ip, hip, hplace⟩ := h.skipped i hi
    exact ⟨ip, getElem?_concat_of_eq_some hip, hplace⟩
  case opened =>
    intro s b' hb'
    rw [hfind, find?_put] at hb'
    split at hb'
    · next hs =>
      obtain rfl := Option.some.inj hb'
      exact ⟨by rw [hs, hb.1], ip, by rw [hb.1, hb.2]; exact hp⟩
    · exact h.opened s b' hb'
  case held =>
    intro s b' hb' e he
    rw [hfind, find?_put] at hb'
    split at hb'
    · obtain rfl := Option.some.inj hb'
      rcases Batch.mem_entries_of_mem_push he with he | rfl
      · exact ⟨getElem?_concat_of_eq_some (hheld e he).1, (hheld e he).2⟩
      · exact ⟨by simp, by rw [hb.1, hb.2]; exact hp⟩
    · exact ⟨getElem?_concat_of_eq_some (h.held s b' hb' e he).1, (h.held s b' hb' e he).2⟩
  case counted =>
    have hc := h.counted
    simp only [Routing.toBucket, Stats.classified, List.length_append, length_singleton] at hc ⊢
    omega

theorem routeIP (h : Routed mappings before ips st) (hdisj : mappings.Pairwise Apart) (c : Callees κ)
    (ip : UInt64) : Routed mappings before (ips ++ [ip]) (routeIP c mappings st ips.length ip) := by
  unfold Debuginfod.routeIP
  cases hm : findMapping mappings ip with
  | none => exact h.toProcess (by simp only [Routing.place, hm])
  | some m =>
    have hplace : (st.classifyFor c m).2.place mappings ip = some ((st.classifyFor c m).1.place m) := by
      simp only [Routing.place, hm, Routing.find?_classifyFor, Option.map_some]
    simp only
    unfold ClassifyResult.place at hplace
    cases hroute : (st.classifyFor c m).1.route with
    | skip => exact (h.classifyFor c m).toSkipped (by rw [hplace, hroute])
    | processMode => exact (h.classifyFor c m).toProcess (by rw [hplace, hroute])
    | fileMode => exact (h.classifyFor c m).toBucket hdisj (by rw [hplace, hroute])

theorem start (p : Progress κ) : Routed mappings p.stats.classified [] ({ p with } : Routing κ) where
  indices := rfl
  process := nofun
  skipped := nofun
  opened := nofun
  held := nofun
  counted := rfl

end Routed

theorem routeIPs_concat (c : Callees κ) (mappings : List Mapping) (st : Routing κ) (ips : List UInt64)
    (ip : UInt64) : routeIPs c mappings st (ips ++ [ip]) =
      routeIP c mappings (routeIPs c mappings st ips) ips.length ip := by
  simp [routeIPs, zipIdx_append]

theorem routed_routeIPs (c : Callees κ) {mappings : List Mapping} (hdisj : mappings.Pairwise Apart)
    (p : Progress κ) (ips : List UInt64) :
    Routed mappings p.stats.classified ips (routeIPs c mappings { p with } ips) := by
  induction ips using List.reverseRecOn with
  | nil => exact .start p
  | append_singleton ips ip ih =>
    rw [routeIPs_concat]
    exact ih.routeIP hdisj c ip

end PerfAgent.Debuginfod
