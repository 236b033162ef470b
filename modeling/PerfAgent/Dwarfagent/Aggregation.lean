import PerfAgent.Dwarfagent.Sample
import Mathlib.Algebra.Order.Ring.Nat
import Mathlib.Algebra.Order.BigOperators.Group.List

/-!
# Aggregating samples

`aggregateCPUSample`, `aggregateOffCPUSample` and `collect` of `unwind/dwarfagent`.  A sample is
added to the total of its process and user stack; the decoded user stack and the kernel stack are
kept from the first sample that had one.  So the kernel stack of a profile sample is that of one of
the samples in it, and it is right for all of them only if they had the same.
-/

namespace PerfAgent.Dwarfagent

open Bpf List

/-! ## The session -/

def fnv (h byte : UInt64) : UInt64 := (h ^^^ byte) * 0x100000001b3

def hashPCs (pcs : List UInt64) : UInt64 :=
  pcs.foldl (fun h pc => (List.range 8).foldl (fun h i => fnv h ((pc >>> UInt64.ofNat (8 * i)) &&& 0xff)) h)
    0xcbf29ce484222325

def hashStack (pcs : List UInt64) (tags : List UInt8) : UInt64 :=
  tags.foldl (fun h t => fnv h t.toUInt64) (hashPCs pcs)

/-- `sampleKey`. -/
structure SampleKey where
  pid : UInt32
  hash : UInt64
deriving DecidableEq

/-- `session`, as far as samples go; `userStacks` is its `stacks`. -/
structure Session where
  samples : AssocMap SampleKey UInt64 := ∅
  userStacks : AssocMap SampleKey (List Slot) := ∅
  kernStacks : AssocMap SampleKey (List UInt64) := ∅

def Sample.key (sample : Sample) : SampleKey := { pid := sample.pid, hash := hashStack sample.pcs sample.tags }

def Sample.slots (sample : Sample) : List Slot := (splitSlots sample.pcs sample.tags).1

namespace Session

def stashStack (s : Session) (key : SampleKey) (slots : List Slot) : Session :=
  if (s.userStacks.find? key).isSome then s else { s with userStacks := s.userStacks.put key slots }

def stashKernelStack (s : Session) (key : SampleKey) (kernelIPs : List UInt64) : Session :=
  if kernelIPs = [] then s
  else if (s.kernStacks.find? key).isSome then s
  else { s with kernStacks := s.kernStacks.put key kernelIPs }

def add (s : Session) (sample : Sample) (kernelIPs : List UInt64) (weight : UInt64) : Session :=
  let s := { s with samples := s.samples.put sample.key ((s.samples.find? sample.key).getD 0 + weight) }
  (s.stashStack sample.key sample.slots).stashKernelStack sample.key kernelIPs

def aggregateCPUSample (s : Session) (sample : Sample) (kernelIPs : List UInt64) : Session :=
  s.add sample kernelIPs 1

def aggregateOffCPUSample (s : Session) (sample : Sample) (kernelIPs : List UInt64) : Session :=
  if sample.value = 0 then s else s.add sample kernelIPs sample.value

end Session

/-- `pprof.ProfileSample`, with the two stacks before they are symbolized. -/
structure ProfileSample where
  pid : UInt32
  kernelIPs : List UInt64
  slots : List Slot
  value : UInt64
deriving DecidableEq

def Session.collect (s : Session) : List ProfileSample :=
  s.samples.entries.map fun e =>
    { pid := e.1.pid, kernelIPs := (s.kernStacks.find? e.1).getD [], slots := (s.userStacks.find? e.1).getD [],
      value := e.2 }

/-! ## Runs -/

inductive Aggregator where
  | cpu
  | offCpu
deriving DecidableEq

abbrev Consumed := Sample × List UInt64

namespace Aggregator

def aggregate (agg : Aggregator) (s : Session) (x : Consumed) : Session :=
  match agg with
  | .cpu => s.aggregateCPUSample x.1 x.2
  | .offCpu => s.aggregateOffCPUSample x.1 x.2

def consume (agg : Aggregator) (xs : List Consumed) : Session := xs.foldl agg.aggregate {}

def weight (agg : Aggregator) (x : Consumed) : UInt64 :=
  match agg with
  | .cpu => 1
  | .offCpu => x.1.value

end Aggregator

/-- The total of the profile samples of a process with a kernel stack and a user stack. -/
def carried (ps : List ProfileSample) (pid : UInt32) (kernelIPs : List UInt64) (slots : List Slot) : Nat :=
  (ps.map fun p => if p.pid = pid ∧ p.kernelIPs = kernelIPs ∧ p.slots = slots then p.value.toNat else 0).sum

namespace Aggregator

variable (agg : Aggregator) (xs : List Consumed)

def taken (pid : UInt32) (kernelIPs : List UInt64) (slots : List Slot) : Nat :=
  (xs.map fun x => if x.1.pid = pid ∧ x.2 = kernelIPs ∧ x.1.slots = slots then (agg.weight x).toNat else 0).sum

def KeepsStacksApart : Prop :=
  ∀ pid kernelIPs slots, carried (agg.consume xs).collect pid kernelIPs slots = agg.taken xs pid kernelIPs slots

/-- The total weight of the samples of a process with one chain of words. -/
def total (pid : UInt32) (pcs : List UInt64) (tags : List UInt8) : Nat :=
  (xs.map fun x => if x.1.pid = pid ∧ x.1.pcs = pcs ∧ x.1.tags = tags then (agg.weight x).toNat else 0).sum

/-- The samples of a process that have one user stack, and weight, have one kernel stack. -/
def OneKernelStack : Prop :=
  ∀ x ∈ xs, ∀ y ∈ xs, agg.weight x ≠ 0 → agg.weight y ≠ 0 →
    x.1.pid = y.1.pid → x.1.pcs = y.1.pcs → x.1.tags = y.1.tags → x.2 = y.2

def FitsCounter : Prop := ∀ pid pcs tags, agg.total xs pid pcs tags < 2 ^ 64

end Aggregator

def NoCollisions (xs : List Consumed) : Prop :=
  ∀ x ∈ xs, ∀ y ∈ xs, hashStack x.1.pcs x.1.tags = hashStack y.1.pcs y.1.tags → x.1.pcs = y.1.pcs ∧ x.1.tags = y.1.tags

/-- The words and tags of a sample are those of whole frames, as every record is that the walker
fills. -/
def Sample.WellTagged (sample : Sample) : Prop :=
  ∃ fs : List Frame,
    sample.pcs = (fs.flatMap Frame.words).map Prod.snd ∧ sample.tags = (fs.flatMap Frame.words).map Prod.fst

/-! ## What the session holds -/

namespace Aggregator

variable (agg : Aggregator) (xs : List Consumed)

theorem aggregate_eq (s : Session) (x : Consumed) :
    agg.aggregate s x = if agg.weight x = 0 then s else s.add x.1 x.2 (agg.weight x) := by
  cases agg with
  | cpu => exact (if_neg (by decide : (1 : UInt64) ≠ 0)).symm
  | offCpu => rfl

theorem consume_append (x : Consumed) : agg.consume (xs ++ [x]) = agg.aggregate (agg.consume xs) x := by
  unfold consume
  rw [foldl_append]
  rfl

end Aggregator

namespace Session

variable (s : Session) (key : SampleKey)

@[simp] theorem samples_stashStack (slots : List Slot) : (s.stashStack key slots).samples = s.samples := by
  unfold stashStack
  split <;> rfl

@[simp] theorem samples_stashKernelStack (ips : List UInt64) : (s.stashKernelStack key ips).samples = s.samples := by
  unfold stashKernelStack
  split
  · rfl
  · split <;> rfl

@[simp] theorem userStacks_stashKernelStack (ips : List UInt64) :
    (s.stashKernelStack key ips).userStacks = s.userStacks := by
  unfold stashKernelStack
  split
  · rfl
  · split <;> rfl

@[simp] theorem kernStacks_stashStack (slots : List Slot) : (s.stashStack key slots).kernStacks = s.kernStacks := by
  unfold stashStack
  split <;> rfl

theorem find?_stashStack (slots : List Slot) (key' : SampleKey) : (s.stashStack key slots).userStacks.find? key' =
      (s.userStacks.find? key').or (if key = key' then some slots else none) := by
  unfold stashStack
  by_cases hkey : key = key'
  · subst hkey
    cases h : s.userStacks.find? key with
    | none => simp
    | some v => simp [h]
  · rw [if_neg hkey, Option.or_none]
    split
    · rfl
    · exact AssocMap.find?_put_of_ne _ _ (Ne.symm hkey)

theorem find?_stashKernelStack (ips : List UInt64) (key' : SampleKey) :
    (s.stashKernelStack key ips).kernStacks.find? key' =
      (s.kernStacks.find? key').or (if key = key' ∧ ips ≠ [] then some ips else none) := by
  unfold stashKernelStack
  by_cases hips : ips = []
  · simp [hips]
  · rw [if_neg hips]
    by_cases hkey : key = key'
    · subst hkey
      cases h : s.kernStacks.find? key with
      | none => simp [hips]
      | some v => simp [h]
    · have hnone : (if key = key' ∧ ips ≠ [] then some ips else none) = none := if_neg fun h => hkey h.1
      rw [hnone, Option.or_none]
      split
      · rfl
      · exact AssocMap.find?_put_of_ne _ _ (Ne.symm hkey)

end Session

namespace Aggregator

variable (agg : Aggregator) (xs : List Consumed)

/-- The sample has weight, and its key is `key`. -/
def HasKey (key : SampleKey) (x : Consumed) : Prop := agg.weight x ≠ 0 ∧ x.1.key = key

instance (key : SampleKey) : DecidablePred (agg.HasKey key) := fun x =>
  inferInstanceAs (Decidable (agg.weight x ≠ 0 ∧ x.1.key = key))

def keyTotal (key : SampleKey) : Nat := (xs.map fun x => if x.1.key = key then (agg.weight x).toNat else 0).sum

theorem keyTotal_append (key : SampleKey) (x : Consumed) :
    agg.keyTotal (xs ++ [x]) key = agg.keyTotal xs key + if x.1.key = key then (agg.weight x).toNat else 0 := by
  unfold keyTotal
  rw [map_append, sum_append]
  simp

theorem userStacks_consume (key : SampleKey) :
    (agg.consume xs).userStacks.find? key = (xs.find? fun x => agg.HasKey key x).map fun x => x.1.slots := by
  induction xs using List.reverseRecOn with
  | nil => rfl
  | append_singleton xs x ih =>
    rw [consume_append, aggregate_eq, find?_append, Option.map_or, ← ih]
    by_cases hw : agg.weight x = 0
    · rw [if_pos hw, find?_singleton, if_neg (by simp [HasKey, hw])]
      exact (Option.or_none).symm
    · rw [if_neg hw]
      unfold Session.add
      rw [Session.userStacks_stashKernelStack, Session.find?_stashStack]
      by_cases hkey : x.1.key = key
      · simp [HasKey, hw, hkey]
      · simp [HasKey, hkey]

theorem kernStacks_consume (key : SampleKey) :
    (agg.consume xs).kernStacks.find? key = (xs.find? fun x => agg.HasKey key x ∧ x.2 ≠ []).map Prod.snd := by
  induction xs using List.reverseRecOn with
  | nil => rfl
  | append_singleton xs x ih =>
    rw [consume_append, aggregate_eq, find?_append, Option.map_or, ← ih]
    by_cases hw : agg.weight x = 0
    · rw [if_pos hw, find?_singleton, if_neg (by simp [HasKey, hw])]
      exact (Option.or_none).symm
    · rw [if_neg hw]
      unfold Session.add
      rw [Session.find?_stashKernelStack, Session.kernStacks_stashStack]
      by_cases hkey : x.1.key = key ∧ x.2 ≠ []
      · simp [HasKey, hw, hkey]
      · rw [if_neg hkey, find?_singleton, if_neg (by simpa [HasKey, hw] using hkey)]
        rfl

theorem samples_consume (key : SampleKey) :
    ((agg.consume xs).samples.find? key).getD 0 = UInt64.ofNat (agg.keyTotal xs key) := by
  induction xs using List.reverseRecOn with
  | nil => rfl
  | append_singleton xs x ih =>
    rw [consume_append, aggregate_eq, keyTotal_append, UInt64.ofNat_add, ← ih]
    by_cases hw : agg.weight x = 0
    · rw [if_pos hw, hw]
      simp
    · rw [if_neg hw]
      unfold Session.add
      rw [Session.samples_stashKernelStack, Session.samples_stashStack, AssocMap.find?_put]
      by_cases hkey : x.1.key = key
      · subst hkey
        simp
      · rw [if_neg (Ne.symm hkey), if_neg hkey]
        simp

theorem isSome_samples_consume (key : SampleKey) :
    ((agg.consume xs).samples.find? key).isSome ↔ ∃ x ∈ xs, agg.HasKey key x := by
  induction xs using List.reverseRecOn with
  | nil => simp [consume]
  | append_singleton xs x ih =>
    rw [consume_append, aggregate_eq]
    have hmem : (∃ y ∈ xs ++ [x], agg.HasKey key y) ↔ (∃ y ∈ xs, agg.HasKey key y) ∨ agg.HasKey key x := by
      simp [or_and_right, exists_or]
    rw [hmem, ← ih]
    by_cases hw : agg.weight x = 0
    · rw [if_pos hw]
      simp [HasKey, hw]
    · rw [if_neg hw]
      unfold Session.add
      rw [Session.samples_stashKernelStack, Session.samples_stashStack, AssocMap.find?_put]
      by_cases hkey : x.1.key = key
      · simp [HasKey, hw, hkey]
      · rw [if_neg (Ne.symm hkey)]
        simp [HasKey, hkey]

/-- While no counter overflows, the counters of any set of keys add up to the samples with them. -/
theorem sumEntries_consume (P : SampleKey → Prop) [DecidablePred P] (hfits : ∀ key, agg.keyTotal xs key < 2 ^ 64) :
    (agg.consume xs).samples.sumEntries (fun key v => if P key then v.toNat else 0) =
      (xs.map fun x => if P x.1.key then (agg.weight x).toNat else 0).sum := by
  induction xs using List.reverseRecOn with
  | nil => rfl
  | append_singleton xs x ih =>
    have hstep := agg.keyTotal_append xs x.1.key x
    have hlt := hfits x.1.key
    rw [if_pos rfl] at hstep
    have hfits' : ∀ key, agg.keyTotal xs key < 2 ^ 64 := fun key =>
      (Nat.le_add_right _ _).trans_lt (agg.keyTotal_append xs key x ▸ hfits key)
    rw [consume_append, aggregate_eq, map_append, sum_append, ← ih hfits']
    by_cases hw : agg.weight x = 0
    · rw [if_pos hw]
      simp [hw]
    · rw [if_neg hw]
      unfold Session.add
      rw [Session.samples_stashKernelStack, Session.samples_stashStack, AssocMap.sumEntries_put]
      have hcounter := agg.samples_consume xs x.1.key
      cases hfind : (agg.consume xs).samples.find? x.1.key with
      | none =>
        rw [AssocMap.del_of_find?_eq_none hfind]
        simp [Nat.add_comm]
      | some v =>
        have hv : v.toNat = agg.keyTotal xs x.1.key := by
          rw [hfind] at hcounter
          rw [show v = _ from hcounter, UInt64.toNat_ofNat', Nat.mod_eq_of_lt (hfits' _)]
        have hadd : (v + agg.weight x).toNat = v.toNat + (agg.weight x).toNat := by
          rw [UInt64.toNat_add, Nat.mod_eq_of_lt (by omega)]
        rw [AssocMap.sumEntries_of_find? _ hfind, Option.getD_some, hadd]
        by_cases hP : P x.1.key
        · simp only [if_pos hP, map_cons, map_nil, sum_cons, sum_nil]
          omega
        · simp only [if_neg hP, map_cons, map_nil, sum_cons, sum_nil]
          omega

end Aggregator

/-! ## Which stacks a key has -/

theorem Frame.slot_injective : Function.Injective Frame.slot := by
  intro f g h
  cases f with
  | native pc =>
    cases g with
    | native pc' => exact congrArg native (congrArg Slot.pc h)
    | interp q =>
      have htag : q.tag.toUInt32 = frameTagNative.toUInt32 := (congrArg Slot.unwinder h).symm
      exact absurd (UInt8.toUInt32_inj.mp htag) q.tag_ne
  | interp p =>
    cases g with
    | native pc' =>
      have htag : p.tag.toUInt32 = frameTagNative.toUInt32 := congrArg Slot.unwinder h
      exact absurd (UInt8.toUInt32_inj.mp htag) p.tag_ne
    | interp q =>
      obtain ⟨tag, tag_ne, a, b⟩ := p
      obtain ⟨tag', tag_ne', a', b'⟩ := q
      obtain rfl : tag = tag' := UInt8.toUInt32_inj.mp (congrArg Slot.unwinder h)
      obtain rfl : a = a' := congrArg Slot.pc h
      obtain rfl : b = b' := congrArg Slot.extra h
      rfl

theorem Sample.WellTagged.eq_of_slots {s t : Sample} (hs : s.WellTagged) (ht : t.WellTagged)
    (h : s.slots = t.slots) : s.pcs = t.pcs ∧ s.tags = t.tags := by
  obtain ⟨fs, hpcs, htags⟩ := hs
  obtain ⟨gs, hpcs', htags'⟩ := ht
  unfold Sample.slots at h
  rw [hpcs, htags, hpcs', htags', splitSlots_words, splitSlots_words] at h
  obtain rfl : fs = gs := Frame.slot_injective.list_map h
  exact ⟨hpcs.trans hpcs'.symm, htags.trans htags'.symm⟩

theorem wellTagged_recordBytes (r : SampleRecord) (fs : List Frame) (hdr : SampleHeader) (pad : UInt8) : ∃ sample,
      parseSample (recordBytes { hdr with nPcs := UInt8.ofNat (pushFrames r 0 fs).2.1 } (pushFrames r 0 fs).1 pad) =
        .ok sample ∧ sample.WellTagged := by
  obtain ⟨hle, hpcs, htags⟩ := take_pushFrames r fs
  exact ⟨_, parseSample_recordBytes _ _ pad hle (toNat_nPcs hle), (pushFrames r 0 fs).2.2, hpcs, htags⟩

variable {x : Consumed}

theorem NoCollisions.of_key {xs : List Consumed} (h : NoCollisions xs) {y : Consumed} (hx : x ∈ xs) (hy : y ∈ xs)
    (hkey : x.1.key = y.1.key) : x.1.pid = y.1.pid ∧ x.1.pcs = y.1.pcs ∧ x.1.tags = y.1.tags :=
  ⟨congrArg SampleKey.pid hkey, h x hx y hy (congrArg SampleKey.hash hkey)⟩

theorem Sample.key_congr {s t : Sample} (hpid : s.pid = t.pid) (hpcs : s.pcs = t.pcs) (htags : s.tags = t.tags) :
    s.key = t.key := by
  unfold Sample.key
  rw [hpid, hpcs, htags]

namespace Session

variable (s : Session)

def slotsOf (key : SampleKey) : List Slot := (s.userStacks.find? key).getD []

def kernelOf (key : SampleKey) : List UInt64 := (s.kernStacks.find? key).getD []

theorem carried_collect (pid : UInt32) (kernelIPs : List UInt64) (slots : List Slot) :
    carried s.collect pid kernelIPs slots = s.samples.sumEntries fun key v =>
      if key.pid = pid ∧ s.kernelOf key = kernelIPs ∧ s.slotsOf key = slots then v.toNat else 0 := by
  unfold carried collect AssocMap.sumEntries
  rw [map_map]
  rfl

end Session

namespace Aggregator

variable {agg : Aggregator} {xs : List Consumed}

theorem slotsOf_consume (hcoll : NoCollisions xs) (hx : x ∈ xs) (hw : agg.weight x ≠ 0) :
    (agg.consume xs).slotsOf x.1.key = x.1.slots := by
  unfold Session.slotsOf
  rw [userStacks_consume]
  cases hfind : xs.find? fun y => agg.HasKey x.1.key y with
  | none => exact absurd (decide_eq_true ⟨hw, rfl⟩) (find?_eq_none.mp hfind x hx)
  | some y =>
    have hy : agg.HasKey x.1.key y := by
      simpa using find?_some hfind
    obtain ⟨-, hpcs, htags⟩ := hcoll.of_key (mem_of_find?_eq_some hfind) hx hy.2
    show y.1.slots = x.1.slots
    unfold Sample.slots
    rw [hpcs, htags]

theorem kernelOf_consume (hcoll : NoCollisions xs) (hone : agg.OneKernelStack xs) (hx : x ∈ xs)
    (hw : agg.weight x ≠ 0) : (agg.consume xs).kernelOf x.1.key = x.2 := by
  unfold Session.kernelOf
  rw [kernStacks_consume]
  cases hfind : xs.find? fun y => agg.HasKey x.1.key y ∧ y.2 ≠ [] with
  | none =>
    by_contra hne
    exact find?_eq_none.mp hfind x hx (decide_eq_true ⟨⟨hw, rfl⟩, Ne.symm hne⟩)
  | some y =>
    have hy : agg.HasKey x.1.key y ∧ y.2 ≠ [] := by
      simpa using find?_some hfind
    have hmem := mem_of_find?_eq_some hfind
    obtain ⟨hpid, hpcs, htags⟩ := hcoll.of_key hmem hx hy.1.2
    exact hone y hmem x hx hy.1.1 hw hpid hpcs htags

theorem keyTotal_lt (hcoll : NoCollisions xs) (hfits : agg.FitsCounter xs) (key : SampleKey) :
    agg.keyTotal xs key < 2 ^ 64 := by
  by_cases hany : ∃ x ∈ xs, x.1.key = key
  · obtain ⟨x, hx, rfl⟩ := hany
    refine lt_of_eq_of_lt ?_ (hfits x.1.pid x.1.pcs x.1.tags)
    unfold keyTotal total
    refine congrArg List.sum (map_congr_left fun y hy => if_congr ⟨hcoll.of_key hy hx, ?_⟩ rfl rfl)
    rintro ⟨hpid, hpcs, htags⟩
    exact Sample.key_congr hpid hpcs htags
  · have hzero : agg.keyTotal xs key = 0 := by
      refine sum_eq_zero fun n hn => ?_
      obtain ⟨x, hx, rfl⟩ := mem_map.mp hn
      exact if_neg fun hkey => hany ⟨x, hx, hkey⟩
    rw [hzero]
    decide

/-- With one kernel stack to a user stack and counters that do not overflow, nothing is misplaced. -/
theorem keepsStacksApart_of_oneKernelStack (hcoll : NoCollisions xs) (hone : agg.OneKernelStack xs)
    (hfits : agg.FitsCounter xs) : agg.KeepsStacksApart xs := by
  intro pid kernelIPs slots
  rw [Session.carried_collect, sumEntries_consume agg xs
      (fun key => key.pid = pid ∧ (agg.consume xs).kernelOf key = kernelIPs ∧ (agg.consume xs).slotsOf key = slots)
      (keyTotal_lt hcoll hfits)]
  unfold taken
  refine congrArg List.sum (map_congr_left fun x hx => ?_)
  by_cases hw : agg.weight x = 0
  · rw [hw]
    simp
  · rw [slotsOf_consume hcoll hx hw, kernelOf_consume hcoll hone hx hw]
    rfl

section WellTagged

variable (hcoll : NoCollisions xs) (hwell : ∀ x ∈ xs, x.1.WellTagged)
include hcoll hwell

theorem key_of_slotsOf (hx : x ∈ xs) {key : SampleKey} {v : UInt64}
    (hfind : (agg.consume xs).samples.find? key = some v) (hpid : key.pid = x.1.pid)
    (hslots : (agg.consume xs).slotsOf key = x.1.slots) : key = x.1.key := by
  have hsome : ((agg.consume xs).samples.find? key).isSome := by
    rw [hfind]
    rfl
  obtain ⟨z, hz, hw, rfl⟩ := (agg.isSome_samples_consume xs key).mp hsome
  rw [slotsOf_consume hcoll hz hw] at hslots
  obtain ⟨hpcs, htags⟩ := (hwell z hz).eq_of_slots (hwell x hx) hslots
  exact Sample.key_congr hpid hpcs htags

theorem kernelOf_of_keepsStacksApart (h : agg.KeepsStacksApart xs) (hx : x ∈ xs) (hw : agg.weight x ≠ 0) :
    (agg.consume xs).kernelOf x.1.key = x.2 := by
  have hpos : agg.taken xs x.1.pid x.2 x.1.slots ≠ 0 := by
    intro hzero
    have hterm := sum_eq_zero_iff.mp hzero _ (mem_map_of_mem hx)
    rw [if_pos ⟨rfl, rfl, rfl⟩] at hterm
    exact hw (UInt64.toNat_inj.mp hterm)
  rw [← h, Session.carried_collect] at hpos
  obtain ⟨key, v, hfind, hterm⟩ := AssocMap.exists_find?_of_sumEntries_ne_zero _ hpos
  obtain ⟨⟨hpid, hkernel, hslots⟩, -⟩ := ite_ne_right_iff.mp hterm
  rw [← key_of_slotsOf hcoll hwell hx hfind hpid hslots]
  exact hkernel

theorem oneKernelStack_of_keepsStacksApart (h : agg.KeepsStacksApart xs) : agg.OneKernelStack xs := by
  intro x hx y hy hwx hwy hpid hpcs htags
  rw [← kernelOf_of_keepsStacksApart hcoll hwell h hx hwx, ← kernelOf_of_keepsStacksApart hcoll hwell h hy hwy,
    Sample.key_congr hpid hpcs htags]

/-- The profile samples with the stacks of a sample are one, so what they carry fits a counter. -/
theorem carried_lt (hx : x ∈ xs) : carried (agg.consume xs).collect x.1.pid x.2 x.1.slots < 2 ^ 64 := by
  rw [Session.carried_collect]
  cases hfind : (agg.consume xs).samples.find? x.1.key with
  | none =>
    refine lt_of_eq_of_lt (?_ : _ = 0) (by decide)
    by_contra hne
    obtain ⟨key, v, hkey, hterm⟩ := AssocMap.exists_find?_of_sumEntries_ne_zero _ hne
    obtain ⟨⟨hpid, -, hslots⟩, -⟩ := ite_ne_right_iff.mp hterm
    rw [key_of_slotsOf hcoll hwell hx hkey hpid hslots, hfind] at hkey
    cases hkey
  | some v =>
    rw [AssocMap.sumEntries_of_find? _ hfind]
    have hrest : AssocMap.sumEntries (fun key (v : UInt64) => if key.pid = x.1.pid ∧
        (agg.consume xs).kernelOf key = x.2 ∧ (agg.consume xs).slotsOf key = x.1.slots then v.toNat else 0)
          ((agg.consume xs).samples.del x.1.key) = 0 := by
      by_contra hne
      obtain ⟨key, v, hkey, hterm⟩ := AssocMap.exists_find?_of_sumEntries_ne_zero _ hne
      obtain ⟨⟨hpid, -, hslots⟩, -⟩ := ite_ne_right_iff.mp hterm
      obtain ⟨hother, hkey⟩ := AssocMap.find?_del_eq_some.mp hkey
      exact hother (key_of_slotsOf hcoll hwell hx hkey hpid hslots)
    rw [hrest, Nat.add_zero]
    split
    · exact v.toNat_lt
    · decide

theorem fitsCounter_of_keepsStacksApart (h : agg.KeepsStacksApart xs) : agg.FitsCounter xs := by
  intro pid pcs tags
  by_cases hany : ∃ x ∈ xs, agg.weight x ≠ 0 ∧ x.1.pid = pid ∧ x.1.pcs = pcs ∧ x.1.tags = tags
  · obtain ⟨x, hx, hw, rfl, rfl, rfl⟩ := hany
    have hone := oneKernelStack_of_keepsStacksApart hcoll hwell h
    refine lt_of_le_of_lt ?_ (h x.1.pid x.2 x.1.slots ▸ carried_lt hcoll hwell hx)
    unfold total taken
    refine sum_le_sum fun y hy => ?_
    by_cases hy' : y.1.pid = x.1.pid ∧ y.1.pcs = x.1.pcs ∧ y.1.tags = x.1.tags ∧ agg.weight y ≠ 0
    · obtain ⟨hpid, hpcs, htags, hwy⟩ := hy'
      have hslots : y.1.slots = x.1.slots := by
        unfold Sample.slots
        rw [hpcs, htags]
      rw [if_pos ⟨hpid, hpcs, htags⟩, if_pos ⟨hpid, hone y hy x hx hwy hw hpid hpcs htags, hslots⟩]
    · refine le_of_eq_of_le (?_ : _ = 0) (Nat.zero_le _)
      split
      · next hmatch =>
          have : agg.weight y = 0 := by
            by_contra hne
            exact hy' ⟨hmatch.1, hmatch.2.1, hmatch.2.2, hne⟩
          rw [this]
          rfl
      · rfl
  · refine lt_of_eq_of_lt (sum_eq_zero fun n hn => ?_) (by decide : 0 < 2 ^ 64)
    obtain ⟨x, hx, rfl⟩ := mem_map.mp hn
    split
    · next hmatch =>
        have : agg.weight x = 0 := by
          by_contra hne
          exact hany ⟨x, hx, hne, hmatch⟩
        rw [this]
        rfl
    · rfl

end WellTagged

/-- Combined stacks have the totals of their samples exactly when no user stack was sampled under two
kernel stacks and no total overflows.  That it is needed is said of samples of whole frames. -/
theorem keepsStacksApart_iff (agg : Aggregator) (xs : List Consumed) (hcoll : NoCollisions xs) :
    (agg.OneKernelStack xs ∧ agg.FitsCounter xs → agg.KeepsStacksApart xs) ∧
      ((∀ x ∈ xs, x.1.WellTagged) → agg.KeepsStacksApart xs → agg.OneKernelStack xs ∧ agg.FitsCounter xs) := by
  refine ⟨fun h => keepsStacksApart_of_oneKernelStack hcoll h.1 h.2, fun hwell h => ⟨?_, ?_⟩⟩
  · exact oneKernelStack_of_keepsStacksApart hcoll hwell h
  · exact fitsCounter_of_keepsStacksApart hcoll hwell h

def sampleAt (pc : UInt64) : Sample :=
  { pid := 7, tid := 7, timeNs := 0, value := 5, mode := 0, walkerFlags := 0, kernStack := 1, pcs := [pc], tags := [0] }

/-- Two places of the user code, each with its own way into the kernel. -/
theorem keepsStacksApart_iff_twoPlaces : cpu.KeepsStacksApart [(sampleAt 4096, [1]), (sampleAt 8192, [2])] := by
  have hcoll : NoCollisions [(sampleAt 4096, [1]), (sampleAt 8192, [2])] := by
    intro x hx y hy hhash
    simp only [mem_cons, not_mem_nil, or_false] at hx hy
    rcases hx with rfl | rfl <;> rcases hy with rfl | rfl
    · exact ⟨rfl, rfl⟩
    · exact absurd hhash (by decide)
    · exact absurd hhash (by decide)
    · exact ⟨rfl, rfl⟩
  refine (keepsStacksApart_iff cpu _ hcoll).1 ⟨?_, ?_⟩
  · intro x hx y hy _ _ _ hpcs _
    simp only [mem_cons, not_mem_nil, or_false] at hx hy
    rcases hx with rfl | rfl <;> rcases hy with rfl | rfl
    · rfl
    · exact absurd hpcs (by decide)
    · exact absurd hpcs (by decide)
    · rfl
  · intro pid pcs tags
    refine lt_of_le_of_lt (sum_le_card_nsmul _ 1 fun n hn => ?_) (by rw [length_map]; decide)
    obtain ⟨x, -, rfl⟩ := mem_map.mp hn
    split
    · exact Nat.le_refl 1
    · exact Nat.zero_le 1

/-- The same user code enters the kernel in two ways: both samples end up under the first of them. -/
theorem not_keepsStacksApart_twoEntries : NoCollisions [(sampleAt 4096, [1]), (sampleAt 4096, [2])] ∧
      ¬ cpu.KeepsStacksApart [(sampleAt 4096, [1]), (sampleAt 4096, [2])] ∧
      ¬ offCpu.KeepsStacksApart [(sampleAt 4096, [1]), (sampleAt 4096, [2])] := by
  refine ⟨?_, fun h => ?_, fun h => ?_⟩
  · intro x hx y hy _
    simp only [mem_cons, not_mem_nil, or_false] at hx hy
    rcases hx with rfl | rfl <;> rcases hy with rfl | rfl <;> exact ⟨rfl, rfl⟩
  · exact absurd (h 7 [2] [{ pc := 4096 }]) (by decide)
  · exact absurd (h 7 [2] [{ pc := 4096 }]) (by decide)

end Aggregator

end PerfAgent.Dwarfagent
