import PerfAgent.Pprof.CallPaths

/-!
# Merging samples

`AddSampleIndexed` adds a sample to the one with the same hash, and `hashLabels` ends every key and
every value with a zero byte.  So the samples that are merged are those with the same locations and
labels, unless a label has a zero byte of its own.
-/

namespace PerfAgent.Pprof

open List

/-! ## One builder for each kind of sample -/

/-- `BuildersOptions`, with what decides where a sample goes. -/
structure BuildersOptions where
  sampleRate : Int64
  perPIDProfile : Bool
  labels : AssocMap (List UInt8) (List UInt8) := ∅
  resolver : Option Resolver
  /-- `xxhash.Sum64`. -/
  sum64 : List UInt8 → UInt64
  sampleRate_ne : sampleRate ≠ 0

/-- `builderHashKey`. -/
structure BuilderKey where
  pid : UInt32
  sampleType : SampleType
deriving DecidableEq

abbrev ProfileBuilders := AssocMap BuilderKey ProfileBuilder

namespace BuildersOptions

variable (opt : BuildersOptions)

def key (s : ProfileSample) : BuilderKey :=
  { pid := if opt.perPIDProfile then s.pid else 0, sampleType := s.sampleType }

/-- What `BuilderForSample` makes a builder with. -/
def builder (key : BuilderKey) : Options where
  resolver := opt.resolver
  labels := opt.labels
  period :=
    match key.sampleType with
    | .cpu => 1000000000 / opt.sampleRate
    | .offCpu | .gpu => 1
    | .mem => 512 * 1024
  sum64 := opt.sum64

/-- `AddSampleIndexed`. -/
def addSampleIndexed (b : ProfileBuilders) (s : ProfileSample) : ProfileBuilders × Nat :=
  let key := opt.key s
  let (p, index) := ((b.find? key).getD {}).addSample (opt.builder key) s
  (b.put key p, index)

def addSamplesIndexed : ProfileBuilders → List ProfileSample → ProfileBuilders × List Nat
  | b, [] => (b, [])
  | b, s :: ss =>
    let (b, index) := opt.addSampleIndexed b s
    let (b, indices) := addSamplesIndexed b ss
    (b, index :: indices)

def samplesOf (ss : List ProfileSample) (key : BuilderKey) : List ProfileSample :=
  ss.filter fun s => opt.key s = key

def indicesOf (ss : List ProfileSample) (key : BuilderKey) : List Nat :=
  ((ss.zip (opt.addSamplesIndexed ∅ ss).2).filter fun a => opt.key a.1 = key).map Prod.snd

end BuildersOptions

/-! ## What merging should do -/

abbrev Added := (ProfileSample × List Location) × Nat

def Same (d d' : ProfileSample × List Location) : Prop :=
  d.2 = d'.2 ∧ ∀ k, d.1.labels.find? k = d'.1.labels.find? k

def Options.total (opt : Options) (t : SampleType) (ss : List ProfileSample) : List Int64 :=
  match t with
  | .cpu => [(ss.map fun s => s.value.toInt64 * opt.period).sum]
  | .offCpu | .gpu => [(ss.map fun s => s.value.toInt64).sum]
  | .mem => [(ss.map fun s => s.value.toInt64).sum, (ss.map fun s => s.value2.toInt64).sum]

namespace Interned

structure Numbered (t : Interned) : Prop where
  mapping : t.mapping.map Mapping.id = List.range' 1 t.mapping.length
  location : t.location.map Location.id = List.range' 1 t.location.length
  function : t.function.map Function.id = List.range' 1 t.function.length

end Interned

/-- A builder of samples of the type `t`, against the samples that were added to it: each has its
locations and its labels, over the configured ones, at its index; those with the same locations and
labels share an index; and the value there is the sum of theirs. -/
structure MergesExactly (opt : Options) (t : SampleType) (p : ProfileBuilder) (added : List Added) : Prop where
  found : ∀ a ∈ added, ∃ sample, p.sample[a.2]? = some sample ∧ sample.location = a.1.2 ∧
    ∀ k, sample.label.find? k = (a.1.1.labels.find? k).or (opt.labels.find? k)
  shared : ∀ a ∈ added, ∀ a' ∈ added, a.1.1.aggregated = false → a'.1.1.aggregated = false →
    (a.2 = a'.2 ↔ Same a.1 a'.1)
  value : ∀ i sample, p.sample[i]? = some sample →
    sample.value = opt.total t ((added.filter fun a => a.2 = i).map fun a => a.1.1)
  numbered : p.interned.Numbered

def MergesSamples (opt : BuildersOptions) (ss : List ProfileSample) : Prop :=
  ∀ key p, (opt.addSamplesIndexed ∅ ss).1.find? key = some p → MergesExactly (opt.builder key) key.sampleType p
      ((stacksOf opt.resolver {} (opt.samplesOf ss key)).zip (opt.indicesOf ss key))

/-! ## What is hashed -/

/-- What `hashLabels` writes after the seed. -/
def labelBytes (labels : AssocMap (List UInt8) (List UInt8)) : List UInt8 :=
  (labels.entries.mergeSort fun a b => decide (a.1 ≤ b.1)).flatMap fun e => e.1 ++ [0] ++ e.2 ++ [0]

/-- `uint64Bytes(p.tmpLocationIDs)`. -/
def idBytes (d : ProfileSample × List Location) : List UInt8 := leWords 8 (d.2.map Location.id)

def Options.keyBytes (opt : Options) (d : ProfileSample × List Location) : List UInt8 :=
  if 0 < d.1.labels.size then leBytes 8 (opt.sum64 (idBytes d)).toNat ++ labelBytes d.1.labels else idBytes d

def Options.hashed (opt : Options) (ds : List (ProfileSample × List Location)) : List (List UInt8) :=
  (ds.filter fun d => !d.1.aggregated).flatMap fun d => [idBytes d, opt.keyBytes d]

/-- `xxhash.Sum64` is injective on the byte strings that a run gives it. -/
def HashInjective (opt : BuildersOptions) (ss : List ProfileSample) : Prop :=
  ∀ key key', ∀ x ∈ (opt.builder key).hashed (stacksOf opt.resolver {} (opt.samplesOf ss key)),
    ∀ y ∈ (opt.builder key').hashed (stacksOf opt.resolver {} (opt.samplesOf ss key')),
      opt.sum64 x = opt.sum64 y → x = y

/-- The byte strings tell the samples apart that may be merged: stacks and labels with the same bytes
are the same, and the ids of a stack without labels are not the seed and the labels of another one. -/
structure TellsApart (opt : Options) (ds : List (ProfileSample × List Location)) : Prop where
  labels : ∀ d ∈ ds, ∀ d' ∈ ds, d.1.aggregated = false → d'.1.aggregated = false →
    idBytes d = idBytes d' → labelBytes d.1.labels = labelBytes d'.1.labels → Same d d'
  mixed : ∀ d ∈ ds, ∀ d' ∈ ds, d.1.aggregated = false → d'.1.aggregated = false →
    d.1.labels.size = 0 → 0 < d'.1.labels.size →
      idBytes d ≠ leBytes 8 (opt.sum64 (idBytes d')).toNat ++ labelBytes d'.1.labels

/-! ## The byte strings tell samples apart -/

section KeyBytes

variable {opt : Options}

theorem hashOf_eq_sum64 (d : ProfileSample × List Location) : opt.hashOf d = opt.sum64 (opt.keyBytes d) := by
  unfold Options.hashOf Options.sampleHash Options.keyBytes idBytes
  split <;> rfl

theorem entries_perm_of_find?_eq {m m' : AssocMap (List UInt8) (List UInt8)} (h : ∀ k, m.find? k = m'.find? k) :
    m.entries.Perm m'.entries := by
  refine lookup_ext m.nodupKeys m'.nodupKeys fun k v => ?_
  change m.find? k = some v ↔ m'.find? k = some v
  rw [h k]

theorem pairwise_mergeSort_key (l : List (Sigma fun _ : List UInt8 => List UInt8)) :
    (l.mergeSort fun a b => decide (a.1 ≤ b.1)).Pairwise fun a b => a.1 ≤ b.1 := by
  refine (pairwise_mergeSort ?_ ?_ l).imp of_decide_eq_true
  · exact fun a b c hab hbc => decide_eq_true (List.le_trans (of_decide_eq_true hab) (of_decide_eq_true hbc))
  · intro a b
    rw [Bool.or_eq_true, decide_eq_true_iff, decide_eq_true_iff]
    exact List.le_total _ _

theorem labelBytes_congr {m m' : AssocMap (List UInt8) (List UInt8)} (h : ∀ k, m.find? k = m'.find? k) :
    labelBytes m = labelBytes m' := by
  have hperm := entries_perm_of_find?_eq h
  have hsame : m.entries.mergeSort (fun a b => decide (a.1 ≤ b.1))
      = m'.entries.mergeSort fun a b => decide (a.1 ≤ b.1) := by
    have hmerge := mergeSort_perm m.entries fun a b => decide (a.1 ≤ b.1)
    have hmerge' := mergeSort_perm m'.entries fun a b => decide (a.1 ≤ b.1)
    refine List.Perm.eq_of_pairwise ?_ (pairwise_mergeSort_key _) (pairwise_mergeSort_key _)
      (hmerge.trans (hperm.trans hmerge'.symm))
    intro a b ha hb hab hba
    have hkey : a.1 = b.1 := List.le_antisymm hab hba
    have hmem : b ∈ m.entries := hperm.mem_iff.mpr (hmerge'.mem_iff.mp hb)
    exact List.NodupKeys.eq_of_fst_eq m.nodupKeys (hmerge.mem_iff.mp ha) hmem hkey
  rw [labelBytes, hsame, labelBytes]

theorem labelBytes_eq_nil (m : AssocMap (List UInt8) (List UInt8)) : labelBytes m = [] ↔ m.size = 0 := by
  unfold labelBytes AssocMap.size
  rw [flatMap_eq_nil_iff, length_eq_zero_iff]
  constructor
  · intro h
    refine eq_nil_iff_forall_not_mem.mpr fun e he => ?_
    have hnil := h e ((mergeSort_perm _ _).mem_iff.mpr he)
    simp at hnil
  · intro h e he
    rw [h] at he
    exact absurd he (by simp)

theorem Same.hashOf_eq {d d' : ProfileSample × List Location} (h : Same d d') : opt.hashOf d = opt.hashOf d' := by
  obtain ⟨hlocs, hlabels⟩ := h
  have hsize : d.1.labels.size = d'.1.labels.size := (entries_perm_of_find?_eq hlabels).length_eq
  rw [hashOf_eq_sum64, hashOf_eq_sum64, Options.keyBytes, Options.keyBytes, hsize,
    labelBytes_congr hlabels, idBytes, idBytes, hlocs]

theorem tellsApart_iff {ds : List (ProfileSample × List Location)}
    (hinj : ∀ x ∈ opt.hashed ds, ∀ y ∈ opt.hashed ds, opt.sum64 x = opt.sum64 y → x = y) :
    TellsApart opt ds ↔ ∀ d ∈ ds, ∀ d' ∈ ds, d.1.aggregated = false → d'.1.aggregated = false →
      opt.hashOf d = opt.hashOf d' → Same d d' := by
  have hids : ∀ d ∈ ds, d.1.aggregated = false → idBytes d ∈ opt.hashed ds := fun d hd hagg =>
    mem_flatMap.mpr ⟨d, mem_filter.mpr ⟨hd, by rw [hagg]; rfl⟩, mem_cons_self⟩
  have hkeys : ∀ d ∈ ds, d.1.aggregated = false → opt.keyBytes d ∈ opt.hashed ds := fun d hd hagg =>
    mem_flatMap.mpr ⟨d, mem_filter.mpr ⟨hd, by rw [hagg]; rfl⟩, by simp⟩
  constructor
  · intro h d hd d' hd' hagg hagg' hhash
    rw [hashOf_eq_sum64, hashOf_eq_sum64] at hhash
    have hkey := hinj _ (hkeys d hd hagg) _ (hkeys d' hd' hagg') hhash
    unfold Options.keyBytes at hkey
    split at hkey
    · next hpos =>
        split at hkey
        · next hpos' =>
            obtain ⟨hseed, hlabels⟩ := append_inj hkey (by rw [length_leBytes, length_leBytes])
            have hsum : opt.sum64 (idBytes d) = opt.sum64 (idBytes d') := by
              have hvalue := congrArg leValue hseed
              rw [leValue_leBytes_of_lt (UInt64.toNat_lt _), leValue_leBytes_of_lt (UInt64.toNat_lt _)] at hvalue
              exact UInt64.toNat_inj.mp hvalue
            exact h.labels d hd d' hd' hagg hagg' (hinj _ (hids d hd hagg) _ (hids d' hd' hagg') hsum) hlabels
        · next hzero' =>
            exact absurd hkey.symm (h.mixed d' hd' d hd hagg' hagg (Nat.eq_zero_of_not_pos hzero') hpos)
    · next hzero =>
        split at hkey
        · next hpos' => exact absurd hkey (h.mixed d hd d' hd' hagg hagg' (Nat.eq_zero_of_not_pos hzero) hpos')
        · next hzero' =>
            have hnil := (labelBytes_eq_nil d.1.labels).mpr (Nat.eq_zero_of_not_pos hzero)
            have hnil' := (labelBytes_eq_nil d'.1.labels).mpr (Nat.eq_zero_of_not_pos hzero')
            exact h.labels d hd d' hd' hagg hagg' hkey (hnil.trans hnil'.symm)
  · intro h
    constructor
    · intro d hd d' hd' hagg hagg' hid hlabels
      refine h d hd d' hd' hagg hagg' ?_
      have hsize : 0 < d.1.labels.size ↔ 0 < d'.1.labels.size := by
        rw [Nat.pos_iff_ne_zero, Nat.pos_iff_ne_zero, ne_eq, ne_eq, ← labelBytes_eq_nil, ← labelBytes_eq_nil, hlabels]
      rw [hashOf_eq_sum64, hashOf_eq_sum64, Options.keyBytes, Options.keyBytes, hid, hlabels]
      simp only [hsize]
    · intro d hd d' hd' hagg hagg' hzero hpos hid
      have hhash : opt.hashOf d = opt.hashOf d' := by
        rw [hashOf_eq_sum64, hashOf_eq_sum64, Options.keyBytes, Options.keyBytes, if_pos hpos, if_neg (by omega), hid]
      have hsize := (entries_perm_of_find?_eq (h d hd d' hd' hagg hagg' hhash).2).length_eq
      unfold AssocMap.size at hzero hpos
      omega

end KeyBytes

/-! ## Ids -/

namespace Interned

variable {t : Interned}

theorem numbered_empty : Numbered {} := ⟨rfl, rfl, rfl⟩

theorem map_id_concat {α : Type} {l : List α} {x : α} {id : α → Nat} (h : l.map id = List.range' 1 l.length)
    (hx : id x = l.length + 1) : (l ++ [x]).map id = List.range' 1 (l ++ [x]).length := by
  rw [map_append, h, map_singleton, hx, List.length_append, length_singleton, range'_1_concat, Nat.add_comm 1]

theorem Numbered.addMapping (h : t.Numbered) (m : ProcMapping) (frame : Frame) : (t.addMapping m frame).1.Numbered := by
  unfold Interned.addMapping
  split
  · exact ⟨h.mapping, h.location, h.function⟩
  · exact ⟨map_id_concat h.mapping rfl, h.location, h.function⟩

theorem Numbered.addFunction (h : t.Numbered) (frame : Frame) (id : Nat) : (t.addFunction frame id).1.Numbered := by
  unfold Interned.addFunction
  split
  · exact h
  · exact ⟨h.mapping, h.location, map_id_concat h.function rfl⟩

theorem Numbered.addLocationUnder (h : t.Numbered) (key : LocationKey) (mapping : Mapping) (address : UInt64)
    (frame : Frame) : (t.addLocationUnder key mapping address frame).1.Numbered := by
  unfold Interned.addLocationUnder
  split
  · exact h
  · obtain ⟨hmapping, hlocation, hfunction⟩ := h.addFunction frame mapping.id
    refine ⟨hmapping, map_id_concat hlocation ?_, hfunction⟩
    dsimp only
    rw [location_addFunction]

end Interned

theorem Interned.Numbered.addLocation {t : Interned} (h : t.Numbered) (resolver : Option Resolver) (frame : Frame)
    (pid : UInt32) : (addLocation resolver t frame pid).1.Numbered := by
  unfold Pprof.addLocation
  split
  · exact (h.addMapping _ _).addLocationUnder _ _ _ _
  · exact (h.addMapping _ _).addLocationUnder _ _ _ _
  · exact h.addLocationUnder _ _ _ _

theorem Interned.Numbered.addStack {t : Interned} (h : t.Numbered) (resolver : Option Resolver) (pid : UInt32)
    (stack : List Frame) : (addStack resolver pid t stack).1.Numbered := by
  induction stack generalizing t with
  | nil => exact h
  | cons f stack ih => exact ih (h.addLocation resolver f pid)

variable {ss : List ProfileSample}

/-! ## One sample -/

namespace ProfileBuilder

variable {opt : Options} {p : ProfileBuilder}

def locationsOf (opt : Options) (p : ProfileBuilder) (s : ProfileSample) : List Location :=
  (addStack opt.resolver s.pid p.interned s.stack).2

/-- What adding a sample can do: append it, append it and remember its hash, or add to the value of an
earlier one. -/
theorem addSample_cases (s : ProfileSample) :
    (p.addSample opt s).1.interned = (addStack opt.resolver s.pid p.interned s.stack).1 ∧
    ((p.addSample opt s).2 = p.sample.length ∧
        (p.addSample opt s).1.sample = p.sample ++ [opt.addValue s (opt.newSample s (locationsOf opt p s))] ∧
        (s.aggregated = true ∧ (p.addSample opt s).1.sampleHashToSample = p.sampleHashToSample ∨
          s.aggregated = false ∧ p.sampleHashToSample.find? (opt.hashOf (s, locationsOf opt p s)) = none ∧
            (p.addSample opt s).1.sampleHashToSample =
              p.sampleHashToSample.put (opt.hashOf (s, locationsOf opt p s)) p.sample.length) ∨
      s.aggregated = false ∧
        p.sampleHashToSample.find? (opt.hashOf (s, locationsOf opt p s)) = some (p.addSample opt s).2 ∧
        (p.addSample opt s).1.sampleHashToSample = p.sampleHashToSample ∧
        (p.addSample opt s).1.sample = p.sample.modify (p.addSample opt s).2 (opt.addValue s)) := by
  unfold ProfileBuilder.addSample
  by_cases hagg : s.aggregated = true
  · rw [if_pos hagg]
    exact ⟨rfl, .inl ⟨rfl, rfl, .inl ⟨hagg, rfl⟩⟩⟩
  · rw [if_neg hagg]
    have hagg := Bool.not_eq_true _ ▸ hagg
    unfold createSampleOrAddValue
    cases hfind : p.sampleHashToSample.find? (opt.hashOf (s, locationsOf opt p s)) with
    | some i =>
      unfold Options.hashOf locationsOf at hfind
      dsimp only at hfind ⊢
      rw [hfind]
      exact ⟨rfl, .inr ⟨hagg, rfl, rfl, rfl⟩⟩
    | none =>
      have hnone := hfind
      unfold Options.hashOf locationsOf at hfind
      dsimp only at hfind ⊢
      rw [hfind]
      exact ⟨rfl, .inl ⟨rfl, rfl, .inr ⟨hagg, rfl, rfl⟩⟩⟩

def added (opt : Options) (p : ProfileBuilder) (ss : List ProfileSample) : List Added :=
  (stacksOf opt.resolver p.interned ss).zip (addSamples opt p ss).2

theorem addSamples_induction {P : ProfileBuilder → List Added → Prop} (hstep : ∀ p done s, P p done →
      P (p.addSample opt s).1 (done ++ [((s, locationsOf opt p s), (p.addSample opt s).2)]))
    {done : List Added} (h : P p done) (ss : List ProfileSample) :
    P (addSamples opt p ss).1 (done ++ added opt p ss) := by
  induction ss generalizing p done with
  | nil =>
    rw [show added opt p [] = [] from rfl, append_nil]
    exact h
  | cons s ss ih =>
    have hcons : added opt p (s :: ss)
        = ((s, locationsOf opt p s), (p.addSample opt s).2) :: added opt (p.addSample opt s).1 ss := by
      unfold added
      rw [(addSample_cases s).1]
      rfl
    have hrest := ih (hstep p done s h)
    rw [append_assoc, singleton_append, ← hcons] at hrest
    exact hrest

/-! ## Where the samples are -/

/-- The builder remembers where the samples that may be merged are, one place for each hash. -/
structure Placed (opt : Options) (p : ProfileBuilder) (done : List Added) : Prop where
  place : ∀ d ∈ done, d.1.1.aggregated = false → p.sampleHashToSample.find? (opt.hashOf d.1) = some d.2
  inj : ∀ h h' i, p.sampleHashToSample.find? h = some i → p.sampleHashToSample.find? h' = some i → h = h'
  known : ∀ h i, p.sampleHashToSample.find? h = some i →
    ∃ d ∈ done, d.1.1.aggregated = false ∧ d.2 = i ∧ opt.hashOf d.1 = h
  lt : ∀ d ∈ done, d.2 < p.sample.length
  numbered : p.interned.Numbered

theorem placed_empty : Placed opt {} [] where
  place := by simp
  inj := by simp
  known := by simp
  lt := by simp
  numbered := Interned.numbered_empty

theorem Placed.index_lt {done : List Added} (h : Placed opt p done) {k : UInt64} {i : Nat}
    (hk : p.sampleHashToSample.find? k = some i) : i < p.sample.length := by
  obtain ⟨d, hd, -, rfl, -⟩ := h.known k i hk
  exact h.lt d hd

theorem Placed.addSample {done : List Added} (h : Placed opt p done) (s : ProfileSample) :
    Placed opt (p.addSample opt s).1 (done ++ [((s, locationsOf opt p s), (p.addSample opt s).2)]) := by
  have hlast : ((s, locationsOf opt p s), (p.addSample opt s).2)
      ∈ done ++ [((s, locationsOf opt p s), (p.addSample opt s).2)] :=
    mem_append_right _ (mem_singleton_self _)
  have hknown : ∀ k i, p.sampleHashToSample.find? k = some i →
      ∃ d ∈ done ++ [((s, locationsOf opt p s), (p.addSample opt s).2)],
        d.1.1.aggregated = false ∧ d.2 = i ∧ opt.hashOf d.1 = k := by
    intro k i hk
    obtain ⟨d, hd, hrest⟩ := h.known k i hk
    exact ⟨d, mem_append_left _ hd, hrest⟩
  obtain ⟨hinterned, ⟨hindex, hsample, hnew⟩ | ⟨hagg, hfind, hmap, hsample⟩⟩ := @addSample_cases opt p s
  · have hlt : ∀ d ∈ done ++ [((s, locationsOf opt p s), (p.addSample opt s).2)],
        d.2 < (p.addSample opt s).1.sample.length := by
      intro d hd
      rw [hsample, List.length_append, length_singleton]
      rcases mem_append.mp hd with hd | hd
      · exact Nat.lt_succ_of_lt (h.lt d hd)
      · obtain rfl := mem_singleton.mp hd
        exact Nat.lt_succ_of_le (Nat.le_of_eq hindex)
    have hnumbered : (p.addSample opt s).1.interned.Numbered := hinterned ▸ h.numbered.addStack _ _ _
    rcases hnew with ⟨hagg, hmap⟩ | ⟨hagg, hnone, hmap⟩
    · refine ⟨fun d hd hdagg => ?_, hmap ▸ h.inj, hmap ▸ hknown, hlt, hnumbered⟩
      rw [hmap]
      rcases mem_append.mp hd with hd | hd
      · exact h.place d hd hdagg
      · obtain rfl := mem_singleton.mp hd
        exact absurd (hagg.symm.trans hdagg) (by decide)
    · refine ⟨fun d hd hdagg => ?_, fun k k' i hk hk' => ?_, fun k i hk => ?_, hlt, hnumbered⟩
      · rw [hmap, AssocMap.find?_put]
        rcases mem_append.mp hd with hd | hd
        · have hold := h.place d hd hdagg
          rw [if_neg (fun heq => by rw [heq, hnone] at hold; cases hold)]
          exact hold
        · obtain rfl := mem_singleton.mp hd
          rw [if_pos rfl, hindex]
      · rw [hmap, AssocMap.find?_put] at hk hk'
        split at hk <;> split at hk'
        · next heq heq' => exact heq.trans heq'.symm
        · exact absurd (h.index_lt hk') (by rw [← Option.some.inj hk]; exact Nat.lt_irrefl _)
        · exact absurd (h.index_lt hk) (by rw [← Option.some.inj hk']; exact Nat.lt_irrefl _)
        · exact h.inj k k' i hk hk'
      · rw [hmap, AssocMap.find?_put] at hk
        split at hk
        · next heq => exact ⟨_, hlast, hagg, hindex.trans (Option.some.inj hk), heq.symm⟩
        · exact hknown k i hk
  · refine ⟨fun d hd hdagg => ?_, hmap ▸ h.inj, hmap ▸ hknown, fun d hd => ?_, hinterned ▸ h.numbered.addStack _ _ _⟩
    · rw [hmap]
      rcases mem_append.mp hd with hd | hd
      · exact h.place d hd hdagg
      · obtain rfl := mem_singleton.mp hd
        exact hfind
    · rw [hsample, length_modify]
      rcases mem_append.mp hd with hd | hd
      · exact h.lt d hd
      · obtain rfl := mem_singleton.mp hd
        exact h.index_lt hfind

theorem Placed.index_eq_iff {done : List Added} (h : Placed opt p done) {d d' : Added} (hd : d ∈ done) (hd' : d' ∈ done)
    (hagg : d.1.1.aggregated = false) (hagg' : d'.1.1.aggregated = false) :
    d.2 = d'.2 ↔ opt.hashOf d.1 = opt.hashOf d'.1 := by
  have hplace := h.place d hd hagg
  have hplace' := h.place d' hd' hagg'
  constructor
  · intro hindex
    rw [hindex] at hplace
    exact h.inj _ _ _ hplace hplace'
  · intro hhash
    rw [hhash, hplace'] at hplace
    exact (Option.some.inj hplace).symm

/-! ## The values -/

theorem value_newSample (s : ProfileSample) (locs : List Location) :
    (opt.newSample s locs).value = opt.total s.sampleType [] := by
  unfold Options.newSample Options.total
  cases s.sampleType <;> rfl

theorem value_addValue (s : ProfileSample) (sample : Sample) (ss : List ProfileSample)
    (h : sample.value = opt.total s.sampleType ss) :
    (opt.addValue s sample).value = opt.total s.sampleType (ss ++ [s]) := by
  unfold Options.addValue
  unfold Options.total at h ⊢
  cases ht : s.sampleType <;>
    · rw [ht] at h
      dsimp only at h ⊢
      simp only [h, map_append, map_singleton, sum_append, sum_singleton]
      rfl

/-- The samples of one type have the values that were added to them. -/
def Summed (opt : Options) (t : SampleType) (p : ProfileBuilder) (done : List Added) : Prop :=
  ∀ i sample, p.sample[i]? = some sample →
    sample.value = opt.total t ((done.filter fun d => d.2 = i).map fun d => d.1.1)

theorem Placed.summed_addSample {t : SampleType} {done : List Added} (h : Placed opt p done) (hsum : Summed opt t p done)
    {s : ProfileSample} (ht : s.sampleType = t) :
    Summed opt t (p.addSample opt s).1 (done ++ [((s, locationsOf opt p s), (p.addSample opt s).2)]) := by
  intro i sample hget
  rw [filter_append, map_append]
  obtain ⟨-, ⟨hindex, hsample, -⟩ | ⟨-, hfind, -, hsample⟩⟩ := @addSample_cases opt p s
  · rw [hsample] at hget
    rcases Nat.lt_trichotomy i p.sample.length with hlt | rfl | hgt
    · rw [getElem?_append_left hlt] at hget
      rw [filter_cons_of_neg (by simp only [decide_eq_true_eq]; omega), filter_nil, map_nil, append_nil]
      exact hsum i sample hget
    · rw [getElem?_concat_length] at hget
      obtain rfl := Option.some.inj hget
      have hnone : (done.filter fun d => d.2 = p.sample.length) = [] :=
        filter_eq_nil_iff.mpr fun d hd => by simpa using Nat.ne_of_lt (h.lt d hd)
      rw [hnone, filter_cons_of_pos (by simpa using hindex), ← ht]
      exact value_addValue s _ [] (value_newSample s _)
    · rw [getElem?_eq_none (by rw [List.length_append, length_singleton]; omega)] at hget
      cases hget
  · rw [hsample, getElem?_modify] at hget
    obtain ⟨old, hold, heq⟩ := Option.map_eq_some_iff.mp hget
    by_cases hi : (p.addSample opt s).2 = i
    · rw [if_pos hi] at heq
      rw [filter_cons_of_pos (by simpa using hi), ← heq, ← ht]
      refine value_addValue s old _ ?_
      rw [ht]
      exact hsum i old hold
    · rw [if_neg hi] at heq
      rw [filter_cons_of_neg (by simpa using hi), filter_nil, map_nil, append_nil, ← heq]
      exact hsum i old hold

/-! ## What is found at an index -/

/-- The sample at an index has the locations and labels of those that went there. -/
def Found (opt : Options) (p : ProfileBuilder) (done : List Added) : Prop :=
  ∀ d ∈ done, ∃ sample, p.sample[d.2]? = some sample ∧ sample.location = d.1.2 ∧
    ∀ k, sample.label.find? k = (d.1.1.labels.find? k).or (opt.labels.find? k)

theorem find?_label_newSample (s : ProfileSample) (locs : List Location) (k : List UInt8) :
    (opt.newSample s locs).label.find? k = (s.labels.find? k).or (opt.labels.find? k) :=
  (AssocMap.find?_foldl_put s.labels.nodupKeys Function.injective_id id opt.labels k).trans
    (congrArg (Option.or · _) Option.map_id_apply)

@[simp] theorem label_addValue (s : ProfileSample) (sample : Sample) : (opt.addValue s sample).label = sample.label := by
  unfold Options.addValue
  split <;> rfl

theorem Placed.found_addSample {done : List Added} (h : Placed opt p done) (hfound : Found opt p done) {s : ProfileSample}
    (hsame : ∀ d ∈ done, d.1.1.aggregated = false → s.aggregated = false →
      opt.hashOf d.1 = opt.hashOf (s, locationsOf opt p s) → Same d.1 (s, locationsOf opt p s)) :
    Found opt (p.addSample opt s).1 (done ++ [((s, locationsOf opt p s), (p.addSample opt s).2)]) := by
  intro d hd
  obtain ⟨-, ⟨hindex, hsample, -⟩ | ⟨hagg, hfind, -, hsample⟩⟩ := @addSample_cases opt p s
  · rw [hsample]
    rcases mem_append.mp hd with hd | hd
    · rw [getElem?_append_left (h.lt d hd)]
      exact hfound d hd
    · obtain rfl := mem_singleton.mp hd
      dsimp only
      rw [hindex, getElem?_concat_length]
      exact ⟨_, rfl, location_addValue s _, fun k => by rw [label_addValue, find?_label_newSample]⟩
  · have hmodify : ∀ e ∈ done, ∃ sample, (p.addSample opt s).1.sample[e.2]? = some sample ∧
        sample.location = e.1.2 ∧ ∀ k, sample.label.find? k = (e.1.1.labels.find? k).or (opt.labels.find? k) := by
      intro e he
      obtain ⟨old, hold, hlocs, hlabels⟩ := hfound e he
      rw [hsample, getElem?_modify, hold]
      refine ⟨_, rfl, ?_, fun k => ?_⟩
      · split
        · exact (location_addValue s old).trans hlocs
        · exact hlocs
      · split
        · rw [label_addValue]
          exact hlabels k
        · exact hlabels k
    rcases mem_append.mp hd with hd | hd
    · exact hmodify d hd
    · obtain rfl := mem_singleton.mp hd
      obtain ⟨e, he, heagg, hindex, hhash⟩ := h.known _ _ hfind
      obtain ⟨hlocs, hlabels⟩ := hsame e he heagg hagg hhash
      obtain ⟨sample, hget, hlocs', hlabels'⟩ := hmodify e he
      rw [hindex] at hget
      exact ⟨sample, hget, hlocs'.trans hlocs, fun k => by rw [hlabels' k, hlabels k]⟩

theorem length_addSamples (p : ProfileBuilder) (ss : List ProfileSample) : (addSamples opt p ss).2.length = ss.length := by
  induction ss generalizing p with
  | nil => rfl
  | cons s ss ih => exact congrArg Nat.succ (ih _)

theorem map_fst_added (p : ProfileBuilder) (ss : List ProfileSample) :
    (added opt p ss).map Prod.fst = stacksOf opt.resolver p.interned ss := by
  refine map_fst_zip (Nat.le_of_eq ?_)
  rw [length_addSamples, ← length_map Prod.fst, map_fst_stacksOf]

theorem mergesExactly_iff {t : SampleType} (ht : ∀ s ∈ ss, s.sampleType = t)
    (hinj : ∀ x ∈ opt.hashed (stacksOf opt.resolver {} ss), ∀ y ∈ opt.hashed (stacksOf opt.resolver {} ss),
      opt.sum64 x = opt.sum64 y → x = y) :
    MergesExactly opt t (addSamples opt {} ss).1 (added opt {} ss) ↔ TellsApart opt (stacksOf opt.resolver {} ss) := by
  have hplaced : Placed opt (addSamples opt {} ss).1 (added opt {} ss) :=
    addSamples_induction (fun _ _ s h => h.addSample s) placed_empty ss
  rw [tellsApart_iff hinj, ← map_fst_added {} ss]
  constructor
  · intro h d hd d' hd' hagg hagg' hhash
    obtain ⟨a, ha, rfl⟩ := mem_map.mp hd
    obtain ⟨a', ha', rfl⟩ := mem_map.mp hd'
    exact (h.shared a ha a' ha' hagg hagg').mp ((hplaced.index_eq_iff ha ha' hagg hagg').mpr hhash)
  · intro h
    -- the samples keep their type and stay apart in every part of the run
    have hrun := addSamples_induction
      (P := fun p done => Placed opt p done ∧ ((∀ d ∈ done, d.1.1.sampleType = t) → Summed opt t p done) ∧
        ((∀ d ∈ done.map Prod.fst, ∀ d' ∈ done.map Prod.fst, d.1.aggregated = false → d'.1.aggregated = false →
          opt.hashOf d = opt.hashOf d' → Same d d') → Found opt p done))
      (fun p done s ⟨hp, hsum, hfound⟩ => by
        refine ⟨hp.addSample s, fun hall => ?_, fun hall => ?_⟩
        · obtain ⟨hall, hlast⟩ := forall_mem_append.mp hall
          exact hp.summed_addSample (hsum hall) (hlast _ (mem_singleton_self _))
        · rw [map_append] at hall
          have hlast : (s, locationsOf opt p s) ∈ done.map Prod.fst ++ [(s, locationsOf opt p s)] :=
            mem_append_right _ (mem_singleton_self _)
          refine hp.found_addSample (hfound fun d hd d' hd' => ?_) fun d hd => ?_
          · exact hall d (mem_append_left _ hd) d' (mem_append_left _ hd')
          · exact hall d.1 (mem_append_left _ (mem_map_of_mem hd)) _ hlast)
      ⟨placed_empty, fun _ i sample h => by simp at h, fun _ d hd => absurd hd not_mem_nil⟩ ss
    obtain ⟨-, hsum, hfound⟩ := hrun
    have htypes : ∀ d ∈ added opt {} ss, d.1.1.sampleType = t := by
      intro d hd
      refine ht d.1.1 ?_
      rw [← map_fst_stacksOf opt.resolver {} ss, ← map_fst_added {} ss]
      exact mem_map_of_mem (mem_map_of_mem hd)
    refine ⟨hfound h, fun a ha a' ha' hagg hagg' => ?_, hsum htypes, hplaced.numbered⟩
    rw [hplaced.index_eq_iff ha ha' hagg hagg']
    exact ⟨h _ (mem_map_of_mem ha) _ (mem_map_of_mem ha') hagg hagg', Same.hashOf_eq⟩

end ProfileBuilder

/-! ## All builders -/

namespace BuildersOptions

variable (opt : BuildersOptions)

theorem find?_addSampleIndexed (b : ProfileBuilders) (s : ProfileSample) (key : BuilderKey) :
    (opt.addSampleIndexed b s).1.find? key =
      if key = opt.key s then some (((b.find? (opt.key s)).getD {}).addSample (opt.builder (opt.key s)) s).1
      else b.find? key :=
  AssocMap.find?_put b (opt.key s) key _

theorem addSamplesIndexed_builder (b : ProfileBuilders) (ss : List ProfileSample) (key : BuilderKey) :
    ((opt.addSamplesIndexed b ss).1.find? key).getD {}
        = (ProfileBuilder.addSamples (opt.builder key) ((b.find? key).getD {}) (opt.samplesOf ss key)).1 ∧
      ((ss.zip (opt.addSamplesIndexed b ss).2).filter fun a => opt.key a.1 = key).map Prod.snd
        = (ProfileBuilder.addSamples (opt.builder key) ((b.find? key).getD {}) (opt.samplesOf ss key)).2 := by
  induction ss generalizing b with
  | nil => exact ⟨rfl, rfl⟩
  | cons s ss ih =>
    obtain ⟨hbuilder, hindices⟩ := ih (opt.addSampleIndexed b s).1
    by_cases hkey : opt.key s = key
    · subst hkey
      have hsamples : opt.samplesOf (s :: ss) (opt.key s) = s :: opt.samplesOf ss (opt.key s) :=
        filter_cons_of_pos (decide_eq_true rfl)
      have hput : ((opt.addSampleIndexed b s).1.find? (opt.key s)).getD {}
          = (((b.find? (opt.key s)).getD {}).addSample (opt.builder (opt.key s)) s).1 := by
        rw [find?_addSampleIndexed, if_pos rfl]
        rfl
      rw [hput] at hbuilder hindices
      rw [hsamples]
      refine ⟨hbuilder, ?_⟩
      have hzip : (s :: ss).zip (opt.addSamplesIndexed b (s :: ss)).2
          = (s, (opt.addSampleIndexed b s).2) :: ss.zip (opt.addSamplesIndexed (opt.addSampleIndexed b s).1 ss).2 := rfl
      rw [hzip, filter_cons_of_pos (by simp), map_cons, hindices]
      rfl
    · have hsamples : opt.samplesOf (s :: ss) key = opt.samplesOf ss key :=
        filter_cons_of_neg (by simpa using hkey)
      have hput : (opt.addSampleIndexed b s).1.find? key = b.find? key := by
        rw [find?_addSampleIndexed, if_neg (Ne.symm hkey)]
      rw [hput] at hbuilder hindices
      rw [hsamples]
      refine ⟨hbuilder, ?_⟩
      have hzip : (s :: ss).zip (opt.addSamplesIndexed b (s :: ss)).2
          = (s, (opt.addSampleIndexed b s).2) :: ss.zip (opt.addSamplesIndexed (opt.addSampleIndexed b s).1 ss).2 := rfl
      rw [hzip, filter_cons_of_neg (by simpa using hkey)]
      exact hindices

theorem samplesOf_eq_nil {b : ProfileBuilders} {key : BuilderKey}
    (h : (opt.addSamplesIndexed b ss).1.find? key = none) : b.find? key = none ∧ opt.samplesOf ss key = [] := by
  induction ss generalizing b with
  | nil => exact ⟨h, rfl⟩
  | cons s ss ih =>
    obtain ⟨hfind, hrest⟩ := ih (b := (opt.addSampleIndexed b s).1) h
    have hne : opt.key s ≠ key := by
      rintro rfl
      rw [find?_addSampleIndexed, if_pos rfl] at hfind
      cases hfind
    rw [find?_addSampleIndexed, if_neg (Ne.symm hne)] at hfind
    exact ⟨hfind, (filter_cons_of_neg (by simpa using hne)).trans hrest⟩

end BuildersOptions

theorem sampleType_of_mem {opt : BuildersOptions} {key : BuilderKey} :
    ∀ s ∈ opt.samplesOf ss key, s.sampleType = key.sampleType := by
  intro s hs
  rw [← of_decide_eq_true (mem_filter.mp hs).2]
  rfl

/-! ## Labels without zero bytes -/

def NoZeroByte (labels : AssocMap (List UInt8) (List UInt8)) : Prop :=
  ∀ e ∈ labels.entries, (0 : UInt8) ∉ e.1 ∧ (0 : UInt8) ∉ e.2

section NoZeroByte

theorem eq_of_append_zero {a b x y : List UInt8} (ha : 0 ∉ a) (hb : 0 ∉ b) (h : a ++ 0 :: x = b ++ 0 :: y) :
    a = b ∧ x = y := by
  induction a generalizing b with
  | nil =>
    cases b with
    | nil => exact ⟨rfl, (List.cons.inj h).2⟩
    | cons c b => exact absurd ((List.cons.inj h).1 ▸ mem_cons_self) hb
  | cons c a ih =>
    cases b with
    | nil => exact absurd ((List.cons.inj h).1 ▸ mem_cons_self) ha
    | cons c' b =>
      obtain ⟨hc, h⟩ := List.cons.inj h
      obtain ⟨rfl, rfl⟩ := ih (fun hmem => ha (mem_cons_of_mem c hmem)) (fun hmem => hb (mem_cons_of_mem c' hmem)) h
      exact ⟨by rw [hc], rfl⟩

theorem eq_of_flatMap_zero {l l' : List (Sigma fun _ : List UInt8 => List UInt8)}
    (hl : ∀ e ∈ l, (0 : UInt8) ∉ e.1 ∧ (0 : UInt8) ∉ e.2) (hl' : ∀ e ∈ l', (0 : UInt8) ∉ e.1 ∧ (0 : UInt8) ∉ e.2)
    (h : (l.flatMap fun e => e.1 ++ [0] ++ e.2 ++ [0]) = l'.flatMap fun e => e.1 ++ [0] ++ e.2 ++ [0]) : l = l' := by
  induction l generalizing l' with
  | nil =>
    cases l' with
    | nil => rfl
    | cons e' l' => simp at h
  | cons e l ih =>
    cases l' with
    | nil => simp at h
    | cons e' l' =>
      obtain ⟨⟨hkey, hvalue⟩, hl⟩ := forall_mem_cons.mp hl
      obtain ⟨⟨hkey', hvalue'⟩, hl'⟩ := forall_mem_cons.mp hl'
      simp only [flatMap_cons, append_assoc, cons_append] at h
      obtain ⟨hk, h⟩ := eq_of_append_zero hkey hkey' h
      obtain ⟨hv, h⟩ := eq_of_append_zero hvalue hvalue' h
      rw [ih hl hl' (by simpa using h)]
      obtain ⟨k, v⟩ := e
      obtain ⟨k', v'⟩ := e'
      obtain rfl : k = k' := hk
      obtain rfl : v = v' := hv
      rfl

theorem find?_eq_of_labelBytes {m m' : AssocMap (List UInt8) (List UInt8)} (hm : NoZeroByte m) (hm' : NoZeroByte m')
    (h : labelBytes m = labelBytes m') (k : List UInt8) : m.find? k = m'.find? k := by
  have hmerge := mergeSort_perm m.entries fun a b => decide (a.1 ≤ b.1)
  have hmerge' := mergeSort_perm m'.entries fun a b => decide (a.1 ≤ b.1)
  have hsame := eq_of_flatMap_zero (fun e he => hm e (hmerge.mem_iff.mp he))
    (fun e he => hm' e (hmerge'.mem_iff.mp he)) h
  exact perm_dlookup k m.nodupKeys (hmerge.symm.trans (hsame ▸ hmerge'))

theorem not_suffix_labelBytes {m : AssocMap (List UInt8) (List UInt8)} (hm : NoZeroByte m)
    (hlong : 2 < (labelBytes m).length) : ¬[0, 0, 0] <:+ labelBytes m := by
  intro hsuf
  have hmerge := mergeSort_perm m.entries fun a b => decide (a.1 ≤ b.1)
  unfold labelBytes at hsuf hlong
  rcases eq_nil_or_concat (m.entries.mergeSort fun a b => decide (a.1 ≤ b.1)) with hnil | ⟨l, e, hlast⟩
  · rw [hnil] at hlong
    exact absurd hlong (by decide)
  · rw [concat_eq_append] at hlast
    obtain ⟨hkey, hvalue⟩ := hm e (hmerge.mem_iff.mp (by rw [hlast]; simp))
    rw [hlast, flatMap_append, flatMap_singleton] at hsuf hlong
    have hpre : ([0, 0, 0] : List UInt8) <+: 0 :: (e.2.reverse ++ 0 :: (e.1.reverse ++
        (l.flatMap fun e => e.1 ++ [0] ++ e.2 ++ [0]).reverse)) := by
      simpa using reverse_prefix.mpr hsuf
    cases hv : e.2.reverse with
    | cons x v =>
      rw [hv] at hpre
      obtain ⟨rfl, -⟩ : (0 : UInt8) = x ∧ _ := by simpa using hpre
      exact hvalue (mem_reverse.mp (hv ▸ mem_cons_self))
    | nil =>
      rw [hv] at hpre
      cases hk : e.1.reverse with
      | cons x k =>
        rw [hk] at hpre
        obtain rfl : (0 : UInt8) = x := by simpa using hpre
        exact hkey (mem_reverse.mp (hk ▸ mem_cons_self))
      | nil =>
        -- the least key is the last one, so it is the only one
        have hlnil : l = [] := by
          refine eq_nil_iff_forall_not_mem.mpr fun a ha => ?_
          have hsorted := pairwise_mergeSort_key m.entries
          have hnodup := (perm_nodupKeys hmerge).mpr m.nodupKeys
          rw [hlast] at hsorted hnodup
          have hle := (pairwise_append.mp hsorted).2.2 a ha e (mem_singleton_self e)
          have hne := (pairwise_append.mp (nodupKeys_iff_pairwise.mp hnodup)).2.2 a ha e (mem_singleton_self e)
          rw [reverse_eq_nil_iff.mp hk] at hle hne
          exact hne (le_nil.mp hle)
        rw [hlnil, reverse_eq_nil_iff.mp hv, reverse_eq_nil_iff.mp hk] at hlong
        exact absurd hlong (by decide)

theorem length_location_addLocation (resolver : Option Resolver) (t : Interned) (f : Frame) (pid : UInt32) :
    (addLocation resolver t f pid).1.location.length ≤ t.location.length + 1 := by
  have hunder : ∀ (t : Interned) key mapping address frame,
      (t.addLocationUnder key mapping address frame).1.location.length ≤ t.location.length + 1 := by
    intro t key mapping address frame
    unfold Interned.addLocationUnder
    split
    · exact Nat.le_succ _
    · dsimp only
      rw [Interned.location_addFunction, List.length_append, length_singleton]
  have hmapping : ∀ m frame, (t.addMapping m frame).1.location.length + 1 = t.location.length + 1 := fun m frame => by
    rw [(Interned.location_addMapping m frame).1]
  unfold addLocation
  split
  · exact (hunder _ _ _ _ _).trans_eq (hmapping _ _)
  · exact (hunder _ _ _ _ _).trans_eq (hmapping _ _)
  · exact hunder _ _ _ _ _

theorem length_location_addStack (resolver : Option Resolver) (pid : UInt32) (stack : List Frame) (t : Interned) :
    (addStack resolver pid t stack).1.location.length ≤ t.location.length + stack.length := by
  induction stack generalizing t with
  | nil => exact Nat.le_refl _
  | cons f stack ih =>
    have hstep := length_location_addLocation resolver t f pid
    have hrest := ih (addLocation resolver t f pid).1
    rw [length_cons]
    exact hrest.trans (by omega)

/-- The locations of the samples are in the profile, and there are no more of them than frames. -/
structure InProfile (p : ProfileBuilder) (done : List Added) : Prop where
  listed : p.interned.Listed
  has : ∀ d ∈ done, ∀ loc ∈ d.1.2, p.interned.Has loc
  length_le : p.interned.location.length ≤ (allFrames (done.map fun d => d.1.1)).length

theorem inProfile_empty (opt : Options) : InProfile {} [] :=
  ⟨(ProfileBuilder.stored_empty opt).listed, by simp, Nat.le_refl _⟩

theorem InProfile.addSample {opt : Options} {p : ProfileBuilder} {done : List Added} (h : InProfile p done)
    (s : ProfileSample) :
    InProfile (p.addSample opt s).1 (done ++ [((s, ProfileBuilder.locationsOf opt p s), (p.addSample opt s).2)]) := by
  obtain ⟨hle, hlisted, hnew⟩ := listed_addStack opt.resolver s.pid s.stack p.interned h.listed
  have hinterned := (@ProfileBuilder.addSample_cases opt p s).1
  refine ⟨hinterned ▸ hlisted, fun d hd loc hloc => ?_, ?_⟩
  · rw [hinterned]
    rcases mem_append.mp hd with hd | hd
    · exact (h.has d hd loc hloc).mono hle
    · obtain rfl := mem_singleton.mp hd
      exact hnew loc hloc
  · have hstep := length_location_addStack opt.resolver s.pid s.stack p.interned
    have hframes : (allFrames ((done ++ [((s, ProfileBuilder.locationsOf opt p s), (p.addSample opt s).2)]).map
        fun d => d.1.1)).length = (allFrames (done.map fun d => d.1.1)).length + s.stack.length := by
      simp [allFrames, procFrames]
    rw [hframes, hinterned]
    exact hstep.trans (Nat.add_le_add_right h.length_le _)

theorem has_stacksOf (opt : Options) (ss : List ProfileSample) :
    ∃ t : Interned, t.location.length ≤ (allFrames ss).length ∧
      ∀ d ∈ stacksOf opt.resolver {} ss, ∀ loc ∈ d.2, t.Has loc := by
  obtain ⟨-, hhas, hlength⟩ :=
    ProfileBuilder.addSamples_induction (P := InProfile) (fun _ _ s h => h.addSample s) (inProfile_empty opt) ss
  have hfst : (ProfileBuilder.added opt {} ss).map Prod.fst = _ := ProfileBuilder.map_fst_added {} ss
  refine ⟨(ProfileBuilder.addSamples opt {} ss).1.interned, ?_, fun d hd loc hloc => ?_⟩
  · have hsamples : (ProfileBuilder.added opt {} ss).map (fun d => d.1.1) = ss := by
      rw [show (fun d : Added => d.1.1) = Prod.fst ∘ Prod.fst from rfl, ← map_map, hfst, map_fst_stacksOf]
    rw [nil_append, hsamples] at hlength
    exact hlength
  · rw [← hfst] at hd
    obtain ⟨a, ha, rfl⟩ := mem_map.mp hd
    exact hhas a ha loc hloc

theorem eq_of_leWords {vs vs' : List Nat} (hvs : ∀ v ∈ vs, v < 256 ^ 8) (hvs' : ∀ v ∈ vs', v < 256 ^ 8)
    (h : leWords 8 vs = leWords 8 vs') : vs = vs' := by
  have hlen : vs.length = vs'.length := by
    have := congrArg List.length h
    rw [length_leWords, length_leWords] at this
    omega
  refine ext_getElem hlen fun i hi hi' => ?_
  have hat := leAt_leWords 8 vs [] i hi
  rw [h, leAt_leWords 8 vs' [] i hi', Nat.mod_eq_of_lt (hvs' _ (getElem_mem hi')),
    Nat.mod_eq_of_lt (hvs _ (getElem_mem hi))] at hat
  exact hat.symm

theorem suffix_leWords {vs : List Nat} (hvs : ∀ v ∈ vs, v < 2 ^ 40) (hne : vs ≠ []) : [0, 0, 0] <:+ leWords 8 vs := by
  rcases eq_nil_or_concat vs with rfl | ⟨l, v, rfl⟩
  · exact absurd rfl hne
  · rw [concat_eq_append] at hvs ⊢
    have hv := hvs v (by simp)
    have hzero : ∀ k, 2 ^ 40 ≤ k → UInt8.ofNat (v / k) = 0 := fun k hk => by
      rw [Nat.div_eq_of_lt (Nat.lt_of_lt_of_le hv hk)]
      rfl
    have hbytes : leBytes 8 v = leBytes 5 v ++ [0, 0, 0] := by
      simp only [leBytes, Nat.div_div_eq_div_mul, cons_append, nil_append]
      rw [hzero (256 * 256 * 256 * 256 * 256) (by decide), hzero (256 * 256 * 256 * 256 * 256 * 256) (by decide),
        hzero (256 * 256 * 256 * 256 * 256 * 256 * 256) (by decide)]
    unfold leWords
    rw [flatMap_append, flatMap_singleton, hbytes, ← append_assoc]
    exact suffix_append _ _

theorem tellsApart_of_noZeroByte {opt : Options} {ss : List ProfileSample}
    (hzero : ∀ s ∈ ss, s.aggregated = false → NoZeroByte s.labels) (hfew : (allFrames ss).length < 2 ^ 40) :
    TellsApart opt (stacksOf opt.resolver {} ss) := by
  obtain ⟨t, hlength, hhas⟩ := has_stacksOf opt ss
  have hsmall : ∀ d ∈ stacksOf opt.resolver {} ss, ∀ id ∈ d.2.map Location.id, id < 2 ^ 40 := by
    intro d hd id hid
    obtain ⟨loc, hloc, rfl⟩ := mem_map.mp hid
    obtain ⟨i, hi, hget⟩ := hhas d hd loc hloc
    have hlt := (List.getElem?_eq_some_iff.mp hget).1
    omega
  have hlabels : ∀ d ∈ stacksOf opt.resolver {} ss, d.1.aggregated = false → NoZeroByte d.1.labels := by
    intro d hd hagg
    refine hzero d.1 ?_ hagg
    rw [← map_fst_stacksOf opt.resolver {} ss]
    exact mem_map_of_mem hd
  constructor
  · intro d hd d' hd' hagg hagg' hid hlab
    have hword : ∀ d ∈ stacksOf opt.resolver {} ss, ∀ id ∈ d.2.map Location.id, id < 256 ^ 8 :=
      fun d hd id hid => Nat.lt_trans (hsmall d hd id hid) (by decide)
    have hids := eq_of_leWords (hword d hd) (hword d' hd') hid
    exact ⟨Interned.eq_of_map_id (hhas d hd) (hhas d' hd') hids,
      find?_eq_of_labelBytes (hlabels d hd hagg) (hlabels d' hd' hagg') hlab⟩
  · intro d hd d' hd' hagg hagg' hnone hsome hid
    have hpos : 0 < (labelBytes d'.1.labels).length := by
      refine length_pos_of_ne_nil fun hnil => ?_
      rw [labelBytes_eq_nil] at hnil
      omega
    have hlen := congrArg List.length hid
    rw [idBytes, length_leWords, List.length_append, length_leBytes] at hlen
    have hsuf : [0, 0, 0] <:+ idBytes d := by
      refine suffix_leWords (hsmall d hd) fun hnil => ?_
      rw [hnil, length_nil] at hlen
      omega
    rw [hid] at hsuf
    refine not_suffix_labelBytes (hlabels d' hd' hagg') (by omega) ?_
    exact suffix_of_suffix_length_le hsuf (suffix_append _ _) (by simp only [length_cons, length_nil]; omega)

end NoZeroByte

/-! ## Whole runs -/

theorem mergesSamples_iff_tellsApart {opt : BuildersOptions} (hinj : HashInjective opt ss) : MergesSamples opt ss ↔
      ∀ key, TellsApart (opt.builder key) (stacksOf opt.resolver {} (opt.samplesOf ss key)) := by
  have hbuilder : ∀ key, MergesExactly (opt.builder key) key.sampleType
      (((opt.addSamplesIndexed ∅ ss).1.find? key).getD {})
      ((stacksOf opt.resolver {} (opt.samplesOf ss key)).zip (opt.indicesOf ss key)) ↔
        TellsApart (opt.builder key) (stacksOf opt.resolver {} (opt.samplesOf ss key)) := by
    intro key
    obtain ⟨hp, hindices⟩ := opt.addSamplesIndexed_builder ∅ ss key
    rw [hp, BuildersOptions.indicesOf, hindices]
    exact ProfileBuilder.mergesExactly_iff sampleType_of_mem (hinj key key)
  constructor
  · intro h key
    cases hfind : (opt.addSamplesIndexed ∅ ss).1.find? key with
    | some p =>
      have hkey := (hbuilder key).mp
      rw [hfind] at hkey
      exact hkey (h key p hfind)
    | none =>
      rw [(opt.samplesOf_eq_nil hfind).2]
      exact ⟨by simp [stacksOf], by simp [stacksOf]⟩
  · intro h key p hfind
    have hkey := (hbuilder key).mpr (h key)
    rw [hfind] at hkey
    exact hkey

theorem length_allFrames_filter_le (ss : List ProfileSample) (q : ProfileSample → Bool) :
    (allFrames (ss.filter q)).length ≤ (allFrames ss).length := by
  induction ss with
  | nil => exact Nat.le_refl _
  | cons s ss ih =>
    have hcons : ∀ l, (allFrames (s :: l)).length = (procFrames s.pid s.stack).length + (allFrames l).length :=
      fun l => List.length_append
    rw [hcons]
    by_cases hs : q s = true
    · rw [filter_cons_of_pos hs, hcons]
      exact Nat.add_le_add_left ih _
    · rw [filter_cons_of_neg hs]
      exact ih.trans (Nat.le_add_left _ _)

/-- Samples are merged exactly in the runs whose byte strings tell them apart, builder by builder: these
are all runs of fewer than `2 ^ 40` frames whose labels have no zero bytes. -/
theorem mergesSamples_iff (opt : BuildersOptions) (ss : List ProfileSample) (hinj : HashInjective opt ss) :
    (MergesSamples opt ss ↔ ∀ key, TellsApart (opt.builder key) (stacksOf opt.resolver {} (opt.samplesOf ss key))) ∧
    ((∀ s ∈ ss, s.aggregated = false → NoZeroByte s.labels) → (allFrames ss).length < 2 ^ 40 →
      MergesSamples opt ss) := by
  refine ⟨mergesSamples_iff_tellsApart hinj, fun hzero hfew => ?_⟩
  refine (mergesSamples_iff_tellsApart hinj).mpr fun key => ?_
  refine @tellsApart_of_noZeroByte (opt.builder key) _ (fun s hs => hzero s (mem_of_mem_filter hs)) ?_
  exact Nat.lt_of_le_of_lt (length_allFrames_filter_le ss _) hfew

section Runs

def byLength : BuildersOptions where
  sampleRate := 99
  perPIDProfile := false
  resolver := none
  sum64 := fun b => UInt64.ofNat b.length
  sampleRate_ne := by decide

def gpuKey : BuilderKey := { pid := 0, sampleType := .gpu }

def labelled (labels : AssocMap (List UInt8) (List UInt8)) : ProfileSample :=
  { pid := 7, sampleType := .gpu, aggregated := false, stack := [{ name := ascii "f" }], value := 1, labels := labels }

theorem hashInjective_byLength {ss : List ProfileSample} {x₁ x₂ : List UInt8} (hkey : ∀ s ∈ ss, byLength.key s = gpuKey)
    (hall : ∀ x ∈ (byLength.builder gpuKey).hashed (stacksOf none {} ss), x = x₁ ∨ x = x₂)
    (hne : byLength.sum64 x₁ ≠ byLength.sum64 x₂) : HashInjective byLength ss := by
  have hstrings : ∀ key, ∀ x ∈ (byLength.builder key).hashed (stacksOf byLength.resolver {} (byLength.samplesOf ss key)),
      x = x₁ ∨ x = x₂ := by
    intro key x hx
    by_cases heq : key = gpuKey
    · subst heq
      have hself : byLength.samplesOf ss gpuKey = ss :=
        filter_eq_self.mpr fun s hs => decide_eq_true (hkey s hs)
      rw [hself] at hx
      exact hall x hx
    · have hnil : byLength.samplesOf ss key = [] :=
        filter_eq_nil_iff.mpr fun s hs => by
          rw [hkey s hs, decide_eq_true_eq]
          exact Ne.symm heq
      rw [hnil] at hx
      exact absurd hx not_mem_nil
  intro key key' x hx y hy hsum
  rcases hstrings key x hx with rfl | rfl <;> rcases hstrings key' y hy with rfl | rfl
  · rfl
  · exact absurd hsum hne
  · exact absurd hsum.symm hne
  · rfl

/-- A stack without labels and the same stack with one. -/
theorem mergesSamples_oneLabel : MergesSamples byLength [labelled ∅, labelled (AssocMap.put ∅ (ascii "a") (ascii "b"))] := by
  refine (mergesSamples_iff byLength _ ?_).2 ?_ ?_
  · refine @hashInjective_byLength _ [1, 0, 0, 0, 0, 0, 0, 0]
      [8, 0, 0, 0, 0, 0, 0, 0, 97, 0, 98, 0] (by decide) ?_ (by decide)
    decide +kernel
  · unfold NoZeroByte
    decide
  · decide

/-- `{"a": "b\x00c\x00d"}` and `{"a": "b", "c": "d"}`, for one stack. -/
def zeroInValue : List ProfileSample :=
  [labelled (AssocMap.put ∅ [97] [98, 0, 99, 0, 100]), labelled (AssocMap.put (AssocMap.put ∅ [99] [100]) [97] [98])]

theorem not_mergesSamples : ¬∀ opt ss, HashInjective opt ss → MergesSamples opt ss := by
  intro h
  have htwo : labelBytes (AssocMap.put (AssocMap.put ∅ [99] [100]) [97] [98]) = [97, 0, 98, 0, 99, 0, 100, 0] := by
    unfold labelBytes
    rw [mergeSort_of_pairwise (by decide)]
    rfl
  have hone : labelBytes (AssocMap.put ∅ [97] [98, 0, 99, 0, 100]) = [97, 0, 98, 0, 99, 0, 100, 0] := by
    decide +kernel
  have hinj : HashInjective byLength zeroInValue := by
    refine @hashInjective_byLength _ [1, 0, 0, 0, 0, 0, 0, 0]
      [8, 0, 0, 0, 0, 0, 0, 0, 97, 0, 98, 0, 99, 0, 100, 0] (by decide) ?_ (by decide)
    intro x hx
    obtain ⟨d, hd, hx⟩ := mem_flatMap.mp hx
    have hstack : idBytes d = [1, 0, 0, 0, 0, 0, 0, 0] ∧ 0 < d.1.labels.size ∧
        labelBytes d.1.labels = [97, 0, 98, 0, 99, 0, 100, 0] := by
      rcases mem_cons.mp (mem_filter.mp hd).1 with rfl | hd
      · exact ⟨by decide, by decide, hone⟩
      · obtain rfl := mem_singleton.mp hd
        exact ⟨by decide, by decide, htwo⟩
    obtain ⟨hids, hsize, hlabels⟩ := hstack
    rcases mem_cons.mp hx with rfl | hx
    · exact .inl hids
    · obtain rfl := mem_singleton.mp hx
      rw [Options.keyBytes, if_pos hsize, hids, hlabels]
      exact .inr (by decide)
  have hapart := (mergesSamples_iff_tellsApart hinj).mp (h byLength zeroInValue hinj) gpuKey
  obtain ⟨first, second, hfirst, hsecond, hlocs, hdiff⟩ :
      ∃ d d', d ∈ stacksOf none {} zeroInValue ∧ d' ∈ stacksOf none {} zeroInValue ∧ d.2 = d'.2 ∧
        d.1 = labelled (AssocMap.put ∅ [97] [98, 0, 99, 0, 100]) ∧
        d'.1 = labelled (AssocMap.put (AssocMap.put ∅ [99] [100]) [97] [98]) :=
    ⟨_, _, mem_cons_self, mem_cons_of_mem _ mem_cons_self, by decide, rfl, rfl⟩
  have hself : byLength.samplesOf zeroInValue gpuKey = zeroInValue := rfl
  rw [hself] at hapart
  have hsame := hapart.labels first hfirst second hsecond (by rw [hdiff.1]; rfl) (by rw [hdiff.2]; rfl)
    (by rw [idBytes, idBytes, hlocs]) (by rw [hdiff.1, hdiff.2]; exact hone.trans htwo.symm)
  have hkey := hsame.2 [99]
  rw [hdiff.1, hdiff.2] at hkey
  exact absurd hkey (by decide)

end Runs

end PerfAgent.Pprof
