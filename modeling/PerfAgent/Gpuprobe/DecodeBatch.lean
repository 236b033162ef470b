import PerfAgent.Gpuprobe.Wire

/-!
# What `decodeBatch` accepts

No slice expression of the decoder is out of range, whatever the bytes: the record decoders
look at their own size first, and the batch compares the length and the count of its header
with what it holds before it cuts anything.  The decoders read no byte past their record, so
a record that is decoded from the rest of the payload is the record of its own slice.

A kind that the wire does not define is let through without records, whatever count it
claims; the consumer counts it.
-/

namespace PerfAgent.Gpuprobe

open List

/-! ## Slices -/

theorem bytesAt_of_le {b : List UInt8} {off n : Nat} (h : off + n ≤ b.length) :
    bytesAt b off n = .ok ((b.drop off).take n) := if_pos h

theorem bytesFrom_of_le {b : List UInt8} {off : Nat} (h : off ≤ b.length) :
    bytesFrom b off = .ok (b.drop off) := if_pos h

def littleEndian (b : List UInt8) (off n : Nat) : Nat :=
  ((b.drop off).take n).foldr (fun x v => x.toNat + 256 * v) 0

theorem uintAt_of_le {b : List UInt8} {off n : Nat} (h : off + n ≤ b.length) :
    uintAt b off n = .ok (littleEndian b off n) := by
  rw [uintAt, bytesAt_of_le h]
  rfl

theorem bytesAt_take (b : List UInt8) {size off n : Nat} (h : off + n ≤ size) :
    bytesAt (b.take size) off n = bytesAt b off n := by
  unfold bytesAt
  rw [length_take, drop_take, take_take, Nat.min_eq_left (by omega : n ≤ size - off)]
  by_cases hle : off + n ≤ b.length
  · rw [if_pos hle, if_pos (le_min h hle)]
  · rw [if_neg hle, if_neg fun hc => hle (hc.trans (min_le_right _ _))]

theorem uintAt_take (b : List UInt8) {size off n : Nat} (h : off + n ≤ size) :
    uintAt (b.take size) off n = uintAt b off n := by
  rw [uintAt, uintAt, bytesAt_take b h]

/-! ## The record decoders -/

inductive Record where
  | launch (r : Launch)
  | exec (r : Exec)
  | module (r : ModuleLoad)
  | pc (r : PCSample)
  | launchSampled (r : LaunchSampled)
  | kernelName (r : KernelNameRecord)
  | stallReason (r : StallReason)
  | samplingWindow (r : WireWindow)
  | config (r : Config)
  | dropped (r : Dropped)

/-- The size of the records of a kind and their decoder, if the wire defines the kind. -/
def Kind.decoder : Kind → Option (Nat × (List UInt8 → Except DecodeError Record))
  | .launch => some (sizeLaunch, fun b => (decodeLaunch b).map .launch)
  | .exec => some (sizeExec, fun b => (decodeExec b).map .exec)
  | .module => some (sizeModuleLoad, fun b => (decodeModuleLoad b).map .module)
  | .pc => some (sizePCSample, fun b => (decodePCSample b).map .pc)
  | .launchSampled => some (sizeLaunchSampled, fun b => (decodeLaunchSampled b).map .launchSampled)
  | .kernelName => some (sizeKernelName, fun b => (decodeKernelName b).map .kernelName)
  | .stallMap => some (sizeStallReason, fun b => (decodeStallReason b).map .stallReason)
  | .samplingWindow =>
    some (sizeSamplingWindow, fun b => (decodeSamplingWindow b).map .samplingWindow)
  | .config => some (sizeConfig, fun b => (decodeConfig b).map .config)
  | .dropped => some (sizeDropped, fun b => (decodeDropped b).map .dropped)
  | .other _ => none

def Batch.allRecords (b : Batch) : List Record :=
  b.launches.map .launch ++ b.execs.map .exec ++ b.modules.map .module ++ b.pcSamples.map .pc ++
    b.sampledLaunches.map .launchSampled ++ b.kernelNames.map .kernelName ++
    b.stallReasons.map .stallReason ++ b.samplingWindows.map .samplingWindow ++
    b.configs.map .config ++ b.drops.map .dropped

section Decoder

variable {α : Type}

/-- The decoder reads its record and nothing after it, and slices within it. -/
structure ReadsRecord (size : Nat) (decode : List UInt8 → Except DecodeError α) : Prop where
  own_slice : ∀ b, decode (b.take size) = decode b
  in_range : ∀ b, decode b ≠ .error .outOfRange

theorem ok_bind {β : Type} (a : α) (f : α → Except DecodeError β) : (Except.ok a >>= f) = f a := rfl

theorem sized_take {size : Nat} {b : List UInt8} {r r' : Except DecodeError α} (h : r = r') :
    sized size (b.take size) r = sized size b r' := by
  unfold sized
  rw [length_take, h]
  by_cases hle : b.length < size
  · rw [if_pos hle, if_pos (by omega)]
  · rw [if_neg hle, if_neg (by omega)]

theorem sized_in_range {size : Nat} {b : List UInt8} {r : Except DecodeError α}
    (h : size ≤ b.length → r ≠ .error .outOfRange) : sized size b r ≠ .error .outOfRange := by
  unfold sized
  split_ifs with hle
  · exact fun hc => nomatch hc
  · exact h (Nat.not_lt.mp hle)

theorem ReadsRecord.map {size : Nat} {decode : List UInt8 → Except DecodeError α}
    (h : ReadsRecord size decode) {β : Type} (f : α → β) :
    ReadsRecord size fun b => (decode b).map f := by
  refine ⟨fun b => by rw [h.own_slice], fun b hc => ?_⟩
  have hb := h.in_range b
  cases hd : decode b with
  | ok a =>
    rw [hd] at hc
    cases hc
  | error e =>
    rw [hd] at hc
    cases hc
    exact hb hd

end Decoder

theorem readsRecord_kernelName : ReadsRecord sizeKernelName decodeKernelName := by
  refine ⟨fun b => sized_take ?_, fun b => sized_in_range fun h => ?_⟩
  · simp only [sizeKernelName, uintAt_take, Nat.reduceAdd, Nat.reduceLeDiff]
    refine bind_congr fun n => ?_
    by_cases hn : n > gpuKernelNameMax
    · simp only [if_pos hn]
      rfl
    · simp only [if_neg hn]
      rw [gpuKernelNameMax] at hn
      simp (disch := omega) only [bytesAt_take]
  · rw [sizeKernelName] at h
    simp (disch := omega) only [uintAt_of_le, ok_bind]
    split_ifs with hn
    · exact fun hc => nomatch hc
    · -- the check on the length is what keeps the name inside the record
      rw [gpuKernelNameMax] at hn
      simp (disch := omega) only [bytesAt_of_le]
      exact fun hc => nomatch hc

theorem readsRecord_stallReason : ReadsRecord sizeStallReason decodeStallReason := by
  refine ⟨fun b => sized_take ?_, fun b => sized_in_range fun h => ?_⟩
  · simp only [sizeStallReason, uintAt_take, Nat.reduceAdd, Nat.reduceLeDiff]
    refine bind_congr fun n => ?_
    by_cases hn : n > gpuStallNameMax
    · simp only [if_pos hn]
      rfl
    · simp only [if_neg hn]
      rw [gpuStallNameMax] at hn
      simp (disch := omega) only [bytesAt_take]
  · rw [sizeStallReason] at h
    simp (disch := omega) only [uintAt_of_le, ok_bind]
    split_ifs with hn
    · exact fun hc => nomatch hc
    · rw [gpuStallNameMax] at hn
      simp (disch := omega) only [bytesAt_of_le]
      exact fun hc => nomatch hc

theorem readsRecord_samplingWindow : ReadsRecord sizeSamplingWindow decodeSamplingWindow := by
  refine ⟨fun b => sized_take ?_, fun b => sized_in_range fun h => ?_⟩
  · simp only [sizeSamplingWindow, uintAt_take, Nat.reduceAdd, Nat.reduceLeDiff]
  · rw [sizeSamplingWindow] at h
    simp (disch := omega) only [uintAt_of_le, ok_bind]
    split
    · exact fun hc => nomatch hc
    · exact fun hc => nomatch hc

theorem readsRecord_launchSampled : ReadsRecord sizeLaunchSampled decodeLaunchSampled := by
  refine ⟨fun b => sized_take ?_, fun b => sized_in_range fun h => ?_⟩
  · simp only [sizeLaunchSampled, uintAt_take, Nat.reduceAdd, Nat.reduceLeDiff]
  · rw [sizeLaunchSampled] at h
    simp (disch := omega) only [uintAt_of_le, ok_bind]
    split
    · exact fun hc => nomatch hc
    · exact fun hc => nomatch hc

theorem readsRecord_numbers : ReadsRecord sizeLaunch decodeLaunch ∧
    ReadsRecord sizeExec decodeExec ∧ ReadsRecord sizeModuleLoad decodeModuleLoad ∧
    ReadsRecord sizePCSample decodePCSample ∧ ReadsRecord sizeConfig decodeConfig ∧
    ReadsRecord sizeDropped decodeDropped := by
  refine ⟨?_, ?_, ?_, ?_, ?_, ?_⟩
  all_goals
    refine ⟨fun b => sized_take ?_, fun b => sized_in_range fun h => ?_⟩
    · simp only [sizeLaunch, sizeExec, sizeModuleLoad, sizePCSample, sizeConfig, sizeDropped,
        uintAt_take, Nat.reduceAdd, Nat.reduceLeDiff]
    · simp only [sizeLaunch, sizeExec, sizeModuleLoad, sizePCSample, sizeConfig, sizeDropped] at h
      simp (disch := omega) only [uintAt_of_le]
      exact fun hc => nomatch hc

theorem Kind.readsRecord {k : Kind} {size : Nat} {dec : List UInt8 → Except DecodeError Record}
    (h : k.decoder = some (size, dec)) : 0 < size ∧ ReadsRecord size dec := by
  obtain ⟨hlaunch, hexec, hmodule, hpc, hconfig, hdropped⟩ := readsRecord_numbers
  cases k <;> cases h
  case launch => exact ⟨by decide, hlaunch.map _⟩
  case exec => exact ⟨by decide, hexec.map _⟩
  case module => exact ⟨by decide, hmodule.map _⟩
  case pc => exact ⟨by decide, hpc.map _⟩
  case launchSampled => exact ⟨by decide, readsRecord_launchSampled.map _⟩
  case kernelName => exact ⟨by decide, readsRecord_kernelName.map _⟩
  case stallMap => exact ⟨by decide, readsRecord_stallReason.map _⟩
  case samplingWindow => exact ⟨by decide, readsRecord_samplingWindow.map _⟩
  case config => exact ⟨by decide, hconfig.map _⟩
  case dropped => exact ⟨by decide, hdropped.map _⟩

/-! ## The records of a payload -/

section Payload

variable {α : Type} {size : Nat} {decode : List UInt8 → Except DecodeError α} {payload : List UInt8} {rs : List α}

theorem decodeFrom_getElem? {i n : Nat} (h : decodeFrom size decode payload i n = .ok rs) {j : Nat} {r : α}
    (hj : rs[j]? = some r) : decode (payload.drop ((i + j) * size)) = .ok r := by
  induction n generalizing i rs j with
  | zero =>
    cases h
    cases hj
  | succ n ih =>
    rw [decodeFrom] at h
    obtain ⟨b, hb, h⟩ := except_bind_eq_ok h
    obtain ⟨r₀, hr₀, h⟩ := except_bind_eq_ok h
    obtain ⟨rs', hrs, h⟩ := except_bind_eq_ok h
    cases h
    unfold bytesFrom at hb
    split_ifs at hb
    cases hb
    cases j with
    | zero =>
      cases hj
      exact hr₀
    | succ j =>
      have := ih hrs hj
      rwa [Nat.add_right_comm] at this

theorem decodeFrom_in_range (hdec : ReadsRecord size decode) {i n : Nat} (h : (i + n) * size ≤ payload.length) :
    decodeFrom size decode payload i n ≠ .error .outOfRange := by
  induction n generalizing i with
  | zero => exact fun hc => nomatch hc
  | succ n ih =>
    have hi : i * size ≤ payload.length :=
      (Nat.mul_le_mul_right size (Nat.le_add_right i (n + 1))).trans h
    rw [decodeFrom, bytesFrom_of_le hi]
    intro hc
    have hrest := @ih (i + 1) (by rwa [Nat.add_right_comm, Nat.add_assoc])
    cases hd : decode (payload.drop (i * size)) with
    | error e =>
      rw [ok_bind, hd] at hc
      cases hc
      exact hdec.in_range _ hd
    | ok r =>
      rw [ok_bind, hd, ok_bind] at hc
      cases hrs : decodeFrom size decode payload (i + 1) n with
      | error e =>
        rw [hrs] at hc
        cases hc
        exact hrest hrs
      | ok rs =>
        rw [hrs] at hc
        cases hc

theorem decodeRecords_in_range (hpos : 0 < size) (hdec : ReadsRecord size decode) (count : Nat) :
    decodeRecords size decode payload count ≠ .error .outOfRange := by
  rw [decodeRecords]
  split_ifs with hle
  · intro hc
    cases hc
  · refine decodeFrom_in_range hdec ?_
    rw [Nat.zero_add]
    exact (Nat.le_div_iff_mul_le hpos).mp (Nat.not_lt.mp hle)

/-- The payload holds the records, and each is the record of its own slice. -/
def RecordsOf (size : Nat) (dec : List UInt8 → Except DecodeError Record) (payload : List UInt8)
    (count : Nat) (rs : List Record) : Prop :=
  rs.length = count ∧ count * size ≤ payload.length ∧
    ∀ i r, rs[i]? = some r → dec ((payload.drop (i * size)).take size) = .ok r

theorem recordsOf_map {f : α → Record} (hpos : 0 < size) (hdec : ReadsRecord size fun b => (decode b).map f)
    {count : Nat} (h : decodeRecords size decode payload count = .ok rs) :
    RecordsOf size (fun b => (decode b).map f) payload count (rs.map f) := by
  rw [decodeRecords] at h
  split_ifs at h with hle
  refine ⟨?_, (Nat.le_div_iff_mul_le hpos).mp (Nat.not_lt.mp hle), fun i r hi => ?_⟩
  · rw [length_map, length_decodeFrom size decode payload h]
  · rw [getElem?_map] at hi
    obtain ⟨r₀, hr₀, rfl⟩ := Option.map_eq_some_iff.mp hi
    have hget := decodeFrom_getElem? h hr₀
    rw [Nat.zero_add] at hget
    refine (hdec.own_slice _).trans ?_
    simp only [hget]
    rfl

end Payload

/-! ## Batches -/

theorem records_of_kind {k : Kind} {α : Type} {size : Nat}
    {decode : List UInt8 → Except DecodeError α} {payload : List UInt8} {count : Nat}
    {rs : List α} {rs' : List Record} (hrs : decodeRecords size decode payload count = .ok rs)
    {f : α → Record} (hk : k.decoder = some (size, fun b => (decode b).map f))
    (hf : rs' = rs.map f) :
    (∀ size dec, k.decoder = some (size, dec) → RecordsOf size dec payload count rs') ∧
      (k.decoder = none → rs' = []) := by
  obtain ⟨hpos, hdec⟩ := Kind.readsRecord hk
  rw [hk]
  refine ⟨fun size' dec' hk' => ?_, fun hk' => nomatch hk'⟩
  cases hk'
  rw [hf]
  exact recordsOf_map hpos hdec hrs

theorem decodePayload_spec {out b : Batch} {payload : List UInt8} {count : Nat}
    (hout : out.allRecords = []) (h : decodePayload out payload count = .ok b) :
    b.kind = out.kind ∧ b.rawCount = out.rawCount ∧ (out.kind = .launchSampled → count = 1) ∧
      (∀ size dec, out.kind.decoder = some (size, dec) → RecordsOf size dec payload count b.allRecords) ∧
      (out.kind.decoder = none → b.allRecords = []) := by
  have hempty := hout
  simp only [Batch.allRecords, append_eq_nil_iff, map_eq_nil_iff] at hempty
  unfold decodePayload at h
  split at h
  case h_5 hk =>
      split_ifs at h with hcount
      obtain ⟨rs, hrs, h⟩ := except_bind_eq_ok h
      cases h
      exact ⟨rfl, rfl, fun _ => not_not.mp hcount,
        records_of_kind hrs (by rw [hk]; rfl) (by simp [Batch.allRecords, hempty])⟩
  case h_11 raw hk =>
      cases h
      refine ⟨rfl, rfl, fun hs => absurd (hk.symm.trans hs) (by simp), fun size dec hd => ?_, fun _ => hout⟩
      rw [hk] at hd
      cases hd
  all_goals
    next hk =>
      obtain ⟨rs, hrs, h⟩ := except_bind_eq_ok h
      cases h
      exact ⟨rfl, rfl, fun hs => absurd (hk.symm.trans hs) (by simp),
        records_of_kind hrs (by rw [hk]; rfl) (by simp [Batch.allRecords, hempty])⟩

theorem decodePayload_in_range (out : Batch) (payload : List UInt8) (count : Nat) :
    decodePayload out payload count ≠ .error .outOfRange := by
  have bind_ne : ∀ {α : Type} {x : Except DecodeError α} {f : α → Batch},
      x ≠ .error .outOfRange → (x >>= fun a => pure (f a)) ≠ .error .outOfRange := by
    intro α x f hx hc
    cases x with
    | error e =>
      cases hc
      exact hx rfl
    | ok a => cases hc
  obtain ⟨hlaunch, hexec, hmodule, hpc, hconfig, hdropped⟩ := readsRecord_numbers
  unfold decodePayload
  split
  case h_1 => exact bind_ne (decodeRecords_in_range (by decide) hlaunch count)
  case h_2 => exact bind_ne (decodeRecords_in_range (by decide) hexec count)
  case h_3 => exact bind_ne (decodeRecords_in_range (by decide) hmodule count)
  case h_4 => exact bind_ne (decodeRecords_in_range (by decide) hpc count)
  case h_5 =>
      split_ifs with hcount
      · intro hc
        cases hc
      · exact bind_ne (decodeRecords_in_range (by decide) readsRecord_launchSampled count)
  case h_6 => exact bind_ne (decodeRecords_in_range (by decide) readsRecord_kernelName count)
  case h_7 => exact bind_ne (decodeRecords_in_range (by decide) readsRecord_stallReason count)
  case h_8 => exact bind_ne (decodeRecords_in_range (by decide) readsRecord_samplingWindow count)
  case h_9 => exact bind_ne (decodeRecords_in_range (by decide) hconfig count)
  case h_10 => exact bind_ne (decodeRecords_in_range (by decide) hdropped count)
  case h_11 =>
      intro hc
      cases hc

/-- The `i`-th slice of `size` bytes after the header. -/
def recordSlice (b : List UInt8) (size i : Nat) : List UInt8 :=
  (b.drop (batchHdrSize + i * size)).take size

def headerBatch (b : List UInt8) : Batch :=
  { kind := Kind.ofWire (littleEndian b 0 4), rawCount := littleEndian b 4 4
    seq := littleEndian b 8 8, pid := littleEndian b 16 4, tid := littleEndian b 20 4
    stackID := int32 (littleEndian b 32 4) }

theorem decodeBatch_eq {b : List UInt8} (h : batchHdrSize ≤ b.length) : decodeBatch b =
    if 2 ^ 63 ≤ littleEndian b 24 8 ∨ littleEndian b 24 8 > (b.drop batchHdrSize).length then
      .error (.payloadBytes (littleEndian b 24 8) (b.drop batchHdrSize).length)
    else decodePayload (headerBatch b) ((b.drop batchHdrSize).take (littleEndian b 24 8)) (littleEndian b 4 4) := by
  have h40 : 40 ≤ b.length := h
  rw [decodeBatch, if_neg (Nat.not_lt.mpr h), bytesFrom_of_le h]
  simp (disch := omega) only [uintAt_of_le, ok_bind]
  split_ifs with hn
  · rfl
  · rw [bytesAt_of_le (by omega)]
    rfl

/-- No payload makes `decodeBatch` slice out of range.  What it accepts of a kind that the wire
defines holds as many records as its header counts, each the record of its own slice, and a
sampled batch holds one; what it accepts of any other kind has no records. -/
theorem decodeBatch_faithful (b : List UInt8) : decodeBatch b ≠ .error .outOfRange ∧ ∀ out, decodeBatch b = .ok out →
      out.kind = Kind.ofWire (littleEndian b 0 4) ∧ out.rawCount = littleEndian b 4 4 ∧
      (out.kind = .launchSampled → out.rawCount = 1) ∧
      (∀ size dec, out.kind.decoder = some (size, dec) → out.allRecords.length = out.rawCount ∧
        out.rawCount * size ≤ littleEndian b 24 8 ∧
        batchHdrSize + littleEndian b 24 8 ≤ b.length ∧
        ∀ i r, out.allRecords[i]? = some r → dec (recordSlice b size i) = .ok r) ∧
      (out.kind.decoder = none → out.allRecords = []) := by
  by_cases hlen : batchHdrSize ≤ b.length
  · rw [decodeBatch_eq hlen]
    split_ifs with hn
    · refine ⟨?_, fun out hc => ?_⟩
      · exact fun hc => nomatch hc
      · cases hc
    · refine ⟨decodePayload_in_range _ _ _, fun out hout => ?_⟩
      obtain ⟨hkind, hcount, hone, hrecs, hnone⟩ := decodePayload_spec rfl hout
      have hcount' : out.rawCount = littleEndian b 4 4 := hcount
      refine ⟨hkind, hcount', ?_, fun size dec hdec => ?_, ?_⟩
      · rw [hkind, hcount']
        exact hone
      · rw [length_drop] at hn
        rw [hkind] at hdec
        obtain ⟨hlen', hle, hget⟩ := hrecs size dec hdec
        rw [length_take, length_drop, Nat.min_eq_left (by omega)] at hle
        refine ⟨hlen'.trans hcount'.symm, hcount' ▸ hle, by omega, fun i r hi => ?_⟩
        -- the slice of the payload is the slice of the sample
        have hi' : i + 1 ≤ littleEndian b 4 4 := by
          have := (List.getElem?_eq_some_iff.mp hi).1
          omega
        have hend : i * size + size ≤ littleEndian b 24 8 :=
          (Nat.succ_mul i size).symm.le.trans ((Nat.mul_le_mul_right size hi').trans hle)
        have := hget i r hi
        rwa [drop_take, take_take, Nat.min_eq_left (by omega), drop_drop] at this
      · rw [hkind]
        exact hnone
  · rw [decodeBatch, if_pos (Nat.not_le.mp hlen)]
    refine ⟨?_, fun out hc => ?_⟩
    · exact fun hc => nomatch hc
    · cases hc

/-- A header alone, of a kind that the wire does not define, that counts one record. -/
def undefinedKind : List UInt8 := [11, 0, 0, 0, 1, 0, 0, 0] ++ List.replicate 32 0

theorem not_decodeBatch_counts : ¬∀ b out, decodeBatch b = .ok out → out.allRecords.length = out.rawCount := by
  intro h
  have hok : decodeBatch undefinedKind = .ok { kind := .other 11, rawCount := 1 } := by
    decide +kernel
  have := h undefinedKind _ hok
  revert this
  decide

end PerfAgent.Gpuprobe
