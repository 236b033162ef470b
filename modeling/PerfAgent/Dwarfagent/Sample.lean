import PerfAgent.Bpf.Handoff
import PerfAgent.Lib.LittleEndian

/-!
# Samples, from the record to the frames

`unwind/dwarfagent/sample.go` and `unwind/interp/frame.go`: the record that the walker leaves is sent
as it lies in memory, with whatever earlier samples have left behind the cursor, and is taken apart
again by offsets.  A frame of an interpreter takes two slots and is put together from them.

Whatever was pushed comes back, in order, and nothing else does.
-/

namespace PerfAgent.Dwarfagent

open Bpf

/-! ## The record in memory -/

/-- The rest of `struct sample_header`. -/
structure SampleHeader where
  pid : UInt32
  tid : UInt32
  timeNs : UInt64
  value : UInt64
  mode : UInt8
  nPcs : UInt8
  pad2 : UInt32
  kernStack : UInt64
deriving DecidableEq

/-- `struct sample_record`, with the byte that fills it up. -/
def recordBytes (hdr : SampleHeader) (r : SampleRecord) (pad : UInt8) : List UInt8 :=
  leBytes 4 hdr.pid.toNat ++ (leBytes 4 hdr.tid.toNat ++ (leBytes 8 hdr.timeNs.toNat ++ (leBytes 8 hdr.value.toNat ++
    ([hdr.mode] ++ ([hdr.nPcs] ++ (leBytes 2 r.walkerFlags.toNat ++ (leBytes 4 hdr.pad2.toNat ++
      (leBytes 8 hdr.kernStack.toNat ++ (leWords 8 (r.pcs.toList.map UInt64.toNat) ++ (r.tags.toList ++ [pad]))))))))))

/-! ## Reading it -/

def sampleHeaderBytes : Nat := 40

/-- `Sample`. -/
structure Sample where
  pid : UInt32
  tid : UInt32
  timeNs : UInt64
  value : UInt64
  mode : UInt8
  walkerFlags : UInt16
  kernStack : Int64
  pcs : List UInt64
  tags : List UInt8
deriving DecidableEq

structure SampleTruncated where
  has : Nat
  need : Nat
deriving DecidableEq

def parseSample (buf : List UInt8) : Except SampleTruncated Sample :=
  if buf.length < sampleHeaderBytes then .error ⟨buf.length, sampleHeaderBytes⟩
  else
    let nPCs := (buf.getD 25 0).toNat
    let nPCs := if nPCs > maxFrames then maxFrames else nPCs
    let pcEnd := sampleHeaderBytes + nPCs * 8
    let nPCs := if pcEnd > buf.length then (buf.length - sampleHeaderBytes) / 8 else nPCs
    let pcs := (List.range nPCs).map fun i => UInt64.ofNat (leAt buf (sampleHeaderBytes + i * 8) 8)
    let tagsOff := sampleHeaderBytes + maxFrames * 8
    let nTags := if tagsOff + nPCs > buf.length then buf.length - tagsOff else nPCs
    .ok
      { pid := UInt32.ofNat (leAt buf 0 4)
        tid := UInt32.ofNat (leAt buf 4 4)
        timeNs := UInt64.ofNat (leAt buf 8 8)
        value := UInt64.ofNat (leAt buf 16 8)
        mode := buf.getD 24 0
        walkerFlags := UInt16.ofNat (leAt buf 26 2)
        kernStack := (UInt64.ofNat (leAt buf 32 8)).toInt64
        pcs := pcs
        tags := (buf.drop tagsOff).take nTags }

/-- `Slot`. -/
structure Slot where
  unwinder : UInt32 := 0
  pc : UInt64
  extra : UInt64 := 0
deriving DecidableEq

def Slot.isInterp (s : Slot) : Bool := s.unwinder ≠ 0

/-- `SplitSlots`: the frames, and whether the last one had only half of its slots. -/
def splitSlots : List UInt64 → List UInt8 → List Slot × Bool
  | [], _ => ([], false)
  | pc :: pcs, [] =>
    let r := splitSlots pcs []
    ({ pc := pc } :: r.1, r.2)
  | pc :: pcs, tag :: tags =>
    if tag = frameTagNative then
      let r := splitSlots pcs tags
      ({ pc := pc } :: r.1, r.2)
    else
      match pcs with
      | [] => ([], true)
      | extra :: pcs =>
        let r := splitSlots pcs tags.tail
        ({ unwinder := tag.toUInt32, pc := pc, extra := extra } :: r.1, r.2)

/-- `NativeIPs`. -/
def nativeIPs (slots : List Slot) : List UInt64 :=
  slots.filterMap fun s => if s.isInterp then none else some s.pc

/-! ## Pushing frames -/

inductive Frame where
  | native (pc : UInt64)
  | interp (pair : InterpPair)
deriving DecidableEq

namespace Frame

def slot : Frame → Slot
  | .native pc => { pc := pc }
  | .interp p => { unwinder := p.tag.toUInt32, pc := p.a, extra := p.b }

def words : Frame → List (UInt8 × UInt64)
  | .native pc => [(frameTagNative, pc)]
  | .interp p => p.slots

def nativePC : Frame → Option UInt64
  | .native pc => some pc
  | .interp _ => none

/-- `record_push_native` or `record_push_interp`. -/
def push (r : SampleRecord) (n : Nat) : Frame → SampleRecord × Nat × Bool
  | .native pc => r.recordPushNative n pc
  | .interp p => r.recordPushInterp n p.tag p.a p.b

end Frame

/-- The pushes of a sample: the record, the cursor, and the frames that were not refused. -/
def pushFrames : SampleRecord → Nat → List Frame → SampleRecord × Nat × List Frame
  | r, n, [] => (r, n, [])
  | r, n, f :: fs =>
    let pushed := f.push r n
    let rest := pushFrames pushed.1 pushed.2.1 fs
    (rest.1, rest.2.1, if pushed.2.2 then rest.2.2 else f :: rest.2.2)

/-! ## What was pushed is in the slots -/

theorem Frame.push_slots (f : Frame) (r : SampleRecord) {n : Nat} (hn : n ≤ maxFrames) : (f.push r n).2.1 ≤ maxFrames ∧
      (f.push r n).1.slots (f.push r n).2.1 = r.slots n ++ if (f.push r n).2.2 then [] else f.words := by
  cases f with
  | native pc =>
    by_cases hroom : n < maxFrames
    · have hcursor := SampleRecord.cursor_recordPushNative_of_lt (r := r) hroom pc
      have hslots := SampleRecord.slots_recordPushNative_of_lt (r := r) hroom pc
      unfold Frame.push
      rw [hcursor] at hslots ⊢
      exact ⟨hroom, hslots⟩
    · have hfull : (native pc).push r n = _ := SampleRecord.recordPushNative_of_le (Nat.not_lt.mp hroom) pc
      rw [hfull]
      exact ⟨hn, (List.append_nil _).symm⟩
  | interp p =>
    by_cases hfull : maxFrames - 2 < n
    · have hpush : (interp p).push r n = _ := recordPushInterp_of_lt hfull r p.tag p.a p.b
      rw [hpush]
      exact ⟨hn, (List.append_nil _).symm⟩
    · have hnext := SampleRecord.next_lt hfull
      have hpush : (interp p).push r n = _ := dif_neg hfull
      rw [hpush]
      refine ⟨hnext, ?_⟩
      dsimp only
      rw [SampleRecord.slots_set hnext, SampleRecord.slots_set, List.append_assoc]
      rfl

variable (fs : List Frame)

theorem pushFrames_slots (r : SampleRecord) {n : Nat} (hn : n ≤ maxFrames) :
    (pushFrames r n fs).2.1 ≤ maxFrames ∧ (pushFrames r n fs).1.slots (pushFrames r n fs).2.1 =
        r.slots n ++ (pushFrames r n fs).2.2.flatMap Frame.words := by
  induction fs generalizing r n with
  | nil => exact ⟨hn, (List.append_nil _).symm⟩
  | cons f fs ih =>
    obtain ⟨hle, hslots⟩ := f.push_slots r hn
    obtain ⟨hle', hslots'⟩ := ih (f.push r n).1 hle
    refine ⟨hle', ?_⟩
    show (pushFrames (f.push r n).1 (f.push r n).2.1 fs).1.slots (pushFrames (f.push r n).1 (f.push r n).2.1 fs).2.1 =
      _ ++ List.flatMap Frame.words (if (f.push r n).2.2 then _ else _)
    rw [hslots', hslots, List.append_assoc]
    cases (f.push r n).2.2 with
    | true => rfl
    | false => rfl

theorem slots_eq_zip (r : SampleRecord) {n : Nat} (hn : n ≤ maxFrames) :
    r.slots n = (r.tags.toList.take n).zip (r.pcs.toList.take n) := by
  induction n with
  | zero => rfl
  | succ n ih =>
    have hlt : n < maxFrames := hn
    have htags : n < r.tags.toList.length := by rwa [Vector.length_toList]
    have hpcs : n < r.pcs.toList.length := by rwa [Vector.length_toList]
    have hslot : r.slot n = some (r.tags[n], r.pcs[n]) := by
      unfold SampleRecord.slot
      rw [Vector.getElem?_eq_getElem hlt, Vector.getElem?_eq_getElem hlt]
      rfl
    unfold SampleRecord.slots at ih ⊢
    rw [List.range_succ, List.filterMap_append, ih (Nat.le_of_succ_le hn), List.filterMap_cons_some hslot,
      List.take_succ_eq_append_getElem htags, List.take_succ_eq_append_getElem hpcs, List.zip_append (by simp)]
    simp

theorem splitSlots_native (pc : UInt64) (pcs : List UInt64) (tags : List UInt8) :
    splitSlots (pc :: pcs) (frameTagNative :: tags) =
      ({ pc := pc } :: (splitSlots pcs tags).1, (splitSlots pcs tags).2) := by
  rw [splitSlots.eq_def]
  exact if_pos rfl

theorem splitSlots_interp {tag : UInt8} (htag : tag ≠ frameTagNative) (a b : UInt64) (pcs : List UInt64)
    (tag' : UInt8) (tags : List UInt8) :
    splitSlots (a :: b :: pcs) (tag :: tag' :: tags) =
      ({ unwinder := tag.toUInt32, pc := a, extra := b } :: (splitSlots pcs tags).1, (splitSlots pcs tags).2) := by
  rw [splitSlots.eq_def]
  exact if_neg htag

theorem splitSlots_words : splitSlots ((fs.flatMap Frame.words).map Prod.snd) ((fs.flatMap Frame.words).map Prod.fst) =
      (fs.map Frame.slot, false) := by
  induction fs with
  | nil => rfl
  | cons f fs ih =>
    cases f with
    | native pc =>
      show splitSlots (pc :: (fs.flatMap Frame.words).map Prod.snd)
        (frameTagNative :: (fs.flatMap Frame.words).map Prod.fst) = _
      rw [splitSlots_native, ih]
      rfl
    | interp p =>
      show splitSlots (p.a :: p.b :: (fs.flatMap Frame.words).map Prod.snd)
        (p.tag :: p.tag :: (fs.flatMap Frame.words).map Prod.fst) = _
      rw [splitSlots_interp p.tag_ne, ih]
      rfl

theorem nativeIPs_slots : nativeIPs (fs.map Frame.slot) = fs.filterMap Frame.nativePC := by
  unfold nativeIPs
  rw [List.filterMap_map]
  refine List.filterMap_congr fun f _ => ?_
  cases f with
  | native pc => rfl
  | interp p =>
    have hinterp : (Frame.interp p).slot.isInterp = true := by
      refine decide_eq_true fun hzero => p.tag_ne ?_
      exact UInt8.toUInt32_inj.mp hzero
    exact if_pos hinterp

/-! ## What was sent is what is read -/

section Parse

variable (hdr : SampleHeader) (r : SampleRecord) (pad : UInt8)

def recordBody : List UInt8 := leWords 8 (r.pcs.toList.map UInt64.toNat) ++ (r.tags.toList ++ [pad])

theorem leAt_header {n v : Nat} {rest : List UInt8} (h : v < 256 ^ n) : leAt (leBytes n v ++ rest) 0 n = v := by
  rw [leAt_leBytes, Nat.mod_eq_of_lt h]

theorem length_recordBytes : (recordBytes hdr r pad).length = 1184 := by
  have hpcs : r.pcs.toList.length = 127 := Vector.length_toList
  have htags : r.tags.toList.length = 127 := Vector.length_toList
  unfold recordBytes
  simp [hpcs, htags]

theorem recordBytes_eq : ∃ header : List UInt8,
    header.length = sampleHeaderBytes ∧ recordBytes hdr r pad = header ++ recordBody r pad := by
  refine ⟨leBytes 4 hdr.pid.toNat ++ (leBytes 4 hdr.tid.toNat ++ (leBytes 8 hdr.timeNs.toNat ++
    (leBytes 8 hdr.value.toNat ++ ([hdr.mode] ++ ([hdr.nPcs] ++ (leBytes 2 r.walkerFlags.toNat ++
      (leBytes 4 hdr.pad2.toNat ++ leBytes 8 hdr.kernStack.toNat))))))), ?_, ?_⟩
  · simp [sampleHeaderBytes]
  · unfold recordBytes recordBody
    simp only [List.append_assoc]

theorem leAt_word (i : Nat) (h : i < maxFrames) :
    UInt64.ofNat (leAt (recordBytes hdr r pad) (sampleHeaderBytes + i * 8) 8) = r.pcs[i] := by
  obtain ⟨header, hlength, heq⟩ := recordBytes_eq hdr r pad
  have hi : i < (r.pcs.toList.map UInt64.toNat).length := by simpa using h
  rw [heq, leAt_append hlength, Nat.mul_comm, recordBody, leAt_leWords 8 _ _ i hi]
  simp only [List.getElem_map, Vector.getElem_toList]
  rw [Nat.mod_eq_of_lt (show _ < 256 ^ 8 from UInt64.toNat_lt _), UInt64.ofNat_toNat]

theorem tags_recordBytes (n : Nat) (hn : n ≤ maxFrames) :
    ((recordBytes hdr r pad).drop (sampleHeaderBytes + maxFrames * 8)).take n = r.tags.toList.take n := by
  obtain ⟨header, hlength, heq⟩ := recordBytes_eq hdr r pad
  have hwords : (leWords 8 (r.pcs.toList.map UInt64.toNat)).length = maxFrames * 8 := by simp [Nat.mul_comm]
  rw [heq, ← hlength, List.drop_length_add_append, recordBody, ← hwords, List.drop_left,
    List.take_append_of_le_length (by simpa using hn)]

theorem parse_header :
    leAt (recordBytes hdr r pad) 0 4 = hdr.pid.toNat ∧ leAt (recordBytes hdr r pad) 4 4 = hdr.tid.toNat ∧
    leAt (recordBytes hdr r pad) 8 8 = hdr.timeNs.toNat ∧ leAt (recordBytes hdr r pad) 16 8 = hdr.value.toNat ∧
    leAt (recordBytes hdr r pad) 26 2 = r.walkerFlags.toNat ∧
    leAt (recordBytes hdr r pad) 32 8 = hdr.kernStack.toNat ∧
    (recordBytes hdr r pad).getD 24 0 = hdr.mode ∧ (recordBytes hdr r pad).getD 25 0 = hdr.nPcs := by
  have h4 : ∀ v rest off n, leAt (leBytes 4 v ++ rest) (4 + off) n = leAt rest off n :=
    fun v => leAt_append (length_leBytes 4 v)
  have h8 : ∀ v rest off n, leAt (leBytes 8 v ++ rest) (8 + off) n = leAt rest off n :=
    fun v => leAt_append (length_leBytes 8 v)
  have h2 : ∀ v rest off n, leAt (leBytes 2 v ++ rest) (2 + off) n = leAt rest off n :=
    fun v => leAt_append (length_leBytes 2 v)
  have h1 : ∀ (b : UInt8) rest off n, leAt ([b] ++ rest) (1 + off) n = leAt rest off n :=
    fun b => leAt_append rfl
  unfold recordBytes
  refine ⟨?_, ?_, ?_, ?_, ?_, ?_, rfl, rfl⟩
  · exact leAt_header hdr.pid.toNat_lt
  · show leAt _ (4 + 0) 4 = _
    rw [h4]
    exact leAt_header hdr.tid.toNat_lt
  · show leAt _ (4 + (4 + 0)) 8 = _
    rw [h4, h4]
    exact leAt_header hdr.timeNs.toNat_lt
  · show leAt _ (4 + (4 + (8 + 0))) 8 = _
    rw [h4, h4, h8]
    exact leAt_header hdr.value.toNat_lt
  · show leAt _ (4 + (4 + (8 + (8 + (1 + (1 + 0)))))) 2 = _
    rw [h4, h4, h8, h8, h1, h1]
    exact leAt_header r.walkerFlags.toNat_lt
  · show leAt _ (4 + (4 + (8 + (8 + (1 + (1 + (2 + (4 + 0)))))))) 8 = _
    rw [h4, h4, h8, h8, h1, h1, h2, h4]
    exact leAt_header hdr.kernStack.toNat_lt

theorem parseSample_recordBytes {n : Nat} (hn : n ≤ maxFrames) (hnPcs : hdr.nPcs.toNat = n) :
    parseSample (recordBytes hdr r pad) = .ok
      { pid := hdr.pid, tid := hdr.tid, timeNs := hdr.timeNs, value := hdr.value, mode := hdr.mode,
        walkerFlags := r.walkerFlags, kernStack := hdr.kernStack.toInt64,
        pcs := r.pcs.toList.take n, tags := r.tags.toList.take n } := by
  obtain ⟨hpid, htid, htime, hvalue, hflags, hkern, hmode, hcount⟩ := parse_header hdr r pad
  have hlength := length_recordBytes hdr r pad
  have hwords : ((List.range n).map fun i =>
      UInt64.ofNat (leAt (recordBytes hdr r pad) (sampleHeaderBytes + i * 8) 8)) = r.pcs.toList.take n := by
    refine List.ext_getElem (by simp [hn]) fun i h₁ h₂ => ?_
    have hi : i < maxFrames := by
      have : i < n := by simpa using h₁
      omega
    rw [List.getElem_map, List.getElem_range, leAt_word hdr r pad i hi, List.getElem_take, Vector.getElem_toList]
  unfold parseSample
  rw [if_neg (by rw [hlength]; decide)]
  dsimp only
  rw [hcount, hnPcs, if_neg (Nat.not_lt.mpr hn), if_neg, if_neg, hpid, htid, htime, hvalue, hflags, hkern, hmode,
    hwords, tags_recordBytes hdr r pad n hn]
  · simp only [UInt32.ofNat_toNat, UInt64.ofNat_toNat, UInt16.ofNat_toNat]
  · rw [hlength]
    unfold sampleHeaderBytes maxFrames at *
    omega
  · rw [hlength]
    unfold sampleHeaderBytes maxFrames at *
    omega

end Parse

theorem take_pushFrames (r : SampleRecord) (fs : List Frame) : (pushFrames r 0 fs).2.1 ≤ maxFrames ∧
      (pushFrames r 0 fs).1.pcs.toList.take (pushFrames r 0 fs).2.1 =
        ((pushFrames r 0 fs).2.2.flatMap Frame.words).map Prod.snd ∧
      (pushFrames r 0 fs).1.tags.toList.take (pushFrames r 0 fs).2.1 =
        ((pushFrames r 0 fs).2.2.flatMap Frame.words).map Prod.fst := by
  obtain ⟨hle, hslots⟩ := pushFrames_slots fs r (Nat.zero_le maxFrames)
  have hzip := (slots_eq_zip (pushFrames r 0 fs).1 hle).symm.trans (hslots.trans (List.nil_append _))
  have hlen : ((pushFrames r 0 fs).1.tags.toList.take (pushFrames r 0 fs).2.1).length =
      ((pushFrames r 0 fs).1.pcs.toList.take (pushFrames r 0 fs).2.1).length := by simp
  rw [← hzip]
  exact ⟨hle, (List.map_snd_zip hlen.ge).symm, (List.map_fst_zip hlen.le).symm⟩

theorem toNat_nPcs {n : Nat} (hle : n ≤ maxFrames) : (UInt8.ofNat n).toNat = n := by
  rw [UInt8.toNat_ofNat']
  unfold maxFrames at hle
  exact Nat.mod_eq_of_lt (by omega)

/-- Whatever the record held before, a sample decodes to the frames that were pushed and not refused,
in order and with none cut off; the rest of the sample is what was in the header; and its native
addresses are those that were pushed. -/
theorem sample_decodes (r : SampleRecord) (fs : List Frame) (hdr : SampleHeader) (pad : UInt8) : ∃ sample,
      parseSample (recordBytes { hdr with nPcs := UInt8.ofNat (pushFrames r 0 fs).2.1 } (pushFrames r 0 fs).1 pad) =
        .ok sample ∧
      splitSlots sample.pcs sample.tags = ((pushFrames r 0 fs).2.2.map Frame.slot, false) ∧
      nativeIPs (splitSlots sample.pcs sample.tags).1 = (pushFrames r 0 fs).2.2.filterMap Frame.nativePC ∧
      sample.walkerFlags = (pushFrames r 0 fs).1.walkerFlags ∧
      (sample.pid, sample.tid, sample.timeNs, sample.value, sample.mode, sample.kernStack) =
        (hdr.pid, hdr.tid, hdr.timeNs, hdr.value, hdr.mode, hdr.kernStack.toInt64) := by
  obtain ⟨hle, hpcs, htags⟩ := take_pushFrames r fs
  have hsplit : splitSlots ((pushFrames r 0 fs).1.pcs.toList.take (pushFrames r 0 fs).2.1)
      ((pushFrames r 0 fs).1.tags.toList.take (pushFrames r 0 fs).2.1) =
        ((pushFrames r 0 fs).2.2.map Frame.slot, false) := by
    rw [htags, hpcs]
    exact splitSlots_words _
  refine ⟨_, parseSample_recordBytes _ _ pad hle (toNat_nPcs hle), hsplit, ?_, rfl, rfl⟩
  dsimp only
  rw [hsplit]
  exact nativeIPs_slots _

end PerfAgent.Dwarfagent
