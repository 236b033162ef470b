import PerfAgent.Perfdata.Reader

/-!
# What is written is read back

The header is written twice: at first it is empty, and `Close` writes over it where everything is.  Everything else is
appended, so the file is the header, the attribute, the records, the table of the features and the features; and the
position that the writer keeps is the end of what it has appended, as long as no write has failed.
-/

namespace PerfAgent.Perfdata

open StreamParser List

/-! ## Words -/

section Words

variable {α : Type} {p : Reader α} {c : List UInt8} {a : α}

theorem run_of_reads (h : Reads nothing p c a) (rest : List UInt8) : run p (c ++ rest) = .ok (a, rest) := by
  unfold run
  rw [h rest ()]
  rfl

theorem run_of_reads_all (h : Reads nothing p c a) : run p c = .ok (a, []) := by
  have hrun := run_of_reads h []
  rwa [append_nil] at hrun

theorem reads_take {b : List UInt8} {n : ℕ} (h : b.length = n) : Reads nothing (take n) b b := reads_block _ h

@[simp] theorem length_u16 (v : UInt16) : (u16 v).length = 2 := length_leBytes 2 _

@[simp] theorem length_u32 (v : UInt32) : (u32 v).length = 4 := length_leBytes 4 _

@[simp] theorem length_u64 (v : UInt64) : (u64 v).length = 8 := length_leBytes 8 _

theorem reads_u16 (v : UInt16) : Reads nothing readU16 (u16 v) v := by
  have hmap := (reads_take (length_u16 v)).map fun b => UInt16.ofNat (leValue b)
  have hvalue : leValue (u16 v) = v.toNat := leValue_leBytes_of_lt v.toNat_lt
  rw [hvalue, UInt16.ofNat_toNat] at hmap
  exact hmap

theorem reads_u32 (v : UInt32) : Reads nothing readU32 (u32 v) v := by
  have hmap := (reads_take (length_u32 v)).map fun b => UInt32.ofNat (leValue b)
  have hvalue : leValue (u32 v) = v.toNat := leValue_leBytes_of_lt v.toNat_lt
  rw [hvalue, UInt32.ofNat_toNat] at hmap
  exact hmap

theorem leValue_u64 (v : UInt64) : leValue (u64 v) = v.toNat := leValue_leBytes_of_lt v.toNat_lt

theorem reads_u64 (v : UInt64) : Reads nothing readU64 (u64 v) v := by
  have hmap := (reads_take (length_u64 v)).map fun b => UInt64.ofNat (leValue b)
  rw [leValue_u64, UInt64.ofNat_toNat] at hmap
  exact hmap

end Words

/-! ## Strings -/

theorem le_align8 (n : ℕ) : n ≤ align8 n := by
  unfold align8
  omega

theorem flatten_cstringPadded8 (s : List UInt8) :
    (cstringPadded8 s).flatten = s ++ 0 :: zeros (align8 (s.length + 1) - (s.length + 1)) := by
  unfold cstringPadded8
  by_cases hpad : align8 (s.length + 1) - (s.length + 1) > 0
  · simp only [if_pos hpad]
    simp
  · have hzero : align8 (s.length + 1) - (s.length + 1) = 0 := by omega
    simp only [hzero]
    simp [zeros]

theorem length_cstringPadded8 (s : List UInt8) : (cstringPadded8 s).flatten.length = align8 (s.length + 1) := by
  have hle := le_align8 (s.length + 1)
  rw [flatten_cstringPadded8, List.length_append, length_cons, zeros, length_replicate]
  omega

theorem readName_cstring {s : List UInt8} (h : 0 ∉ s) : readName (cstringPadded8 s).flatten = .ok s := by
  rw [flatten_cstringPadded8]
  unfold readName
  have htext : (s ++ 0 :: zeros (align8 (s.length + 1) - (s.length + 1))).takeWhile (fun c => decide (c ≠ 0)) = s := by
    rw [takeWhile_append_of_pos fun c hc => ?_]
    · simp
    · exact decide_eq_true fun hzero => h (hzero ▸ hc)
  rw [if_pos (by simp), htext]

/-! ## Records -/

def Record.sampleID : Record → Option SampleID
  | .comm r => some { pid := r.pid, tid := r.tid, time := r.time, cpu := r.cpu }
  | .mmap2 r => some { pid := r.pid, tid := r.tid, time := r.time, cpu := r.cpu }
  | .sample _ => none
  | .finishedRound => none

/-- A record that the format can hold: its size has 16 bits, its name ends at the first NUL, and no address looks like
a marker. -/
def Record.Fits (r : Record) : Prop :=
  r.size < 65536 ∧
  match r with
  | .comm r => 0 ∉ r.comm
  | .mmap2 r => 0 ∉ r.filename
  | .sample r => ∀ ip ∈ r.kernelIPs ++ r.userIPs, ip ≠ perfContextKernel ∧ ip ≠ perfContextUser
  | .finishedRound => True

instance : DecidablePred Record.Fits
  | .comm _ => inferInstanceAs (Decidable (_ ∧ _ ∉ _))
  | .mmap2 _ => inferInstanceAs (Decidable (_ ∧ _ ∉ _))
  | .sample r =>
    -- over the list, and not over all the words there are
    have : Decidable (∀ ip ∈ r.kernelIPs ++ r.userIPs, ip ≠ perfContextKernel ∧ ip ≠ perfContextUser) :=
      List.decidableBAll _ _
    inferInstanceAs (Decidable (_ ∧ ∀ ip ∈ r.kernelIPs ++ r.userIPs, ip ≠ perfContextKernel ∧ ip ≠ perfContextUser))
  | .finishedRound => inferInstanceAs (Decidable (_ ∧ True))

theorem length_encodeSampleID (pid tid cpu : UInt32) (time : UInt64) :
    (encodeSampleID pid tid cpu time).flatten.length = sampleIDSize := by
  simp [encodeSampleID, sampleIDSize]

theorem reads_sampleID (pid tid cpu : UInt32) (time : UInt64) :
    Reads nothing readSampleID (encodeSampleID pid tid cpu time).flatten { pid, tid, time, cpu } := by
  refine (reads_u32 pid).bind ((reads_u32 tid).bind ((reads_u64 time).bind ((reads_u32 cpu).bind ?_)))
  exact (reads_u32 0).bind (reads_pure _)

theorem splitTrailer_append (fields : List UInt8) (pid tid cpu : UInt32) (time : UInt64) :
    splitTrailer (fields ++ (encodeSampleID pid tid cpu time).flatten) = .ok (fields, { pid, tid, time, cpu }) := by
  have hlength : (fields ++ (encodeSampleID pid tid cpu time).flatten).length - sampleIDSize = fields.length := by
    rw [List.length_append, length_encodeSampleID, Nat.add_sub_cancel]
  unfold splitTrailer
  rw [hlength, drop_left, take_left, run_of_reads_all (reads_sampleID pid tid cpu time)]
  rfl

theorem readComm_ok {r : CommRecord} (h : 0 ∉ r.comm) :
    readComm ([u32 r.pid, u32 r.tid] ++ cstringPadded8 r.comm ++ encodeSampleID r.pid r.tid r.cpu r.time).flatten =
      .ok (r, { pid := r.pid, tid := r.tid, time := r.time, cpu := r.cpu }) := by
  have hpids : Reads nothing readPids [u32 r.pid, u32 r.tid].flatten (r.pid, r.tid) :=
    (reads_u32 r.pid).bind ((reads_u32 r.tid).bind (reads_pure _))
  unfold readComm
  rw [flatten_append, splitTrailer_append, flatten_append]
  simp only [bind, Except.bind, run_of_reads hpids, readName_cstring h]
  rfl

theorem reads_buildID (id : BuildID) : Reads nothing readBuildID id.1 id := by
  intro rest s
  have hle : 20 ≤ (id.1 ++ rest).length := by
    rw [List.length_append, id.2]
    omega
  unfold readBuildID
  rw [dif_pos hle]
  have htake : (id.1 ++ rest).take 20 = id.1 := take_left' id.2
  have hdrop : (id.1 ++ rest).drop 20 = rest := drop_left' id.2
  simp only [htake, hdrop]

theorem reads_union (buildID : Option (UInt8 × BuildID)) :
    Reads nothing (readUnion (if buildID.isSome then miscMmapBuildID else 0)) (encodeUnion buildID).flatten buildID := by
  cases buildID with
  | none =>
    have hread : Reads nothing (do let _ ← take 24; pure none : Reader (Option (UInt8 × BuildID)))
        [zeros 24].flatten none := (reads_take length_replicate).bind (reads_pure _)
    exact hread
  | some b =>
    have hflag : miscMmapBuildID &&& miscMmapBuildID ≠ 0 := by decide
    have hread : Reads nothing (do
          let size ← StreamParser.item nothing .truncated
          let _ ← take 3
          let id ← readBuildID
          pure (some (size, id)) : Reader (Option (UInt8 × BuildID)))
        ([b.1] ++ ([0, 0, 0] ++ (b.2.1 ++ []))) (some b) :=
      (reads_item _ b.1).bind ((reads_take (b := [0, 0, 0]) rfl).bind ((reads_buildID b.2).bind (reads_pure _)))
    change Reads nothing (readUnion miscMmapBuildID) ([b.1] ++ ([0, 0, 0] ++ (b.2.1 ++ []))) (some b)
    unfold readUnion
    rw [if_pos hflag]
    exact hread

theorem reads_mapping (r : Mmap2Record) : Reads nothing (readMapping (if r.buildID.isSome then miscMmapBuildID else 0))
      ([u32 r.pid, u32 r.tid, u64 r.addr, u64 r.len, u64 r.pgoff] ++ encodeUnion r.buildID ++
        [u32 r.prot, u32 r.flags]).flatten
      { r with time := 0, cpu := 0, filename := [] } := by
  simp only [flatten_append, flatten_cons, flatten_nil, append_nil, append_assoc]
  refine (reads_u32 r.pid).bind ((reads_u32 r.tid).bind ((reads_u64 r.addr).bind ((reads_u64 r.len).bind ?_)))
  refine (reads_u64 r.pgoff).bind ((reads_union r.buildID).bind ((reads_u32 r.prot).bind ?_))
  exact (reads_u32 r.flags).map _

theorem readMmap2_ok {r : Mmap2Record} (h : 0 ∉ r.filename) :
    readMmap2 (if r.buildID.isSome then miscMmapBuildID else 0)
      ([u32 r.pid, u32 r.tid, u64 r.addr, u64 r.len, u64 r.pgoff] ++ encodeUnion r.buildID ++
        [u32 r.prot, u32 r.flags] ++ cstringPadded8 r.filename ++ encodeSampleID r.pid r.tid r.cpu r.time).flatten =
      .ok (r, { pid := r.pid, tid := r.tid, time := r.time, cpu := r.cpu }) := by
  have hmapping := reads_mapping r
  unfold readMmap2
  rw [flatten_append, splitTrailer_append, flatten_append]
  simp only [bind, Except.bind, run_of_reads hmapping, readName_cstring h]
  rfl

theorem reads_ips (ips : List UInt64) : Reads nothing (readIPs ips.length) (ips.map u64).flatten ips := by
  induction ips with
  | nil => exact reads_pure _
  | cons ip ips ih => exact (reads_u64 ip).bind (ih.map _)

theorem splitChain_append {ips : List UInt64} (h : ∀ ip ∈ ips, ip ≠ perfContextKernel ∧ ip ≠ perfContextUser)
    (kernel : Bool) (rest : List UInt64) :
    splitChain kernel (ips ++ rest) = (if kernel then ips ++ (splitChain kernel rest).1 else (splitChain kernel rest).1,
        if kernel then (splitChain kernel rest).2 else ips ++ (splitChain kernel rest).2) := by
  induction ips with
  | nil => cases kernel <;> rfl
  | cons ip ips ih =>
    obtain ⟨hkernel, huser⟩ := h ip mem_cons_self
    rw [cons_append, splitChain, if_neg hkernel, if_neg huser, ih fun ip' hip' => h ip' (mem_cons_of_mem _ hip')]
    cases kernel <;> rfl

theorem splitChain_chain {r : SampleRecord}
    (h : ∀ ip ∈ r.kernelIPs ++ r.userIPs, ip ≠ perfContextKernel ∧ ip ≠ perfContextUser) :
    splitChain false r.chain = (r.kernelIPs, r.userIPs) := by
  have hkernel := fun rest => splitChain_append (fun ip hip => h ip (mem_append_left _ hip)) true rest
  have huser : ∀ mode : Bool, splitChain mode (if r.userIPs.length > 0 then perfContextUser :: r.userIPs else []) =
      ([], r.userIPs) := by
    intro mode
    split
    · have hrest := splitChain_append (fun ip hip => h ip (mem_append_right _ hip)) false []
      rw [append_nil] at hrest
      rw [splitChain, if_neg (by decide), if_pos rfl, hrest]
      simp [splitChain]
    · next hempty =>
        have hnil : r.userIPs = [] := eq_nil_of_length_eq_zero (Nat.eq_zero_of_not_pos hempty)
        rw [hnil]
        rfl
  unfold SampleRecord.chain
  split
  · rw [cons_append, splitChain, if_pos rfl, hkernel, huser]
    simp
  · next hempty =>
      have hnil : r.kernelIPs = [] := eq_nil_of_length_eq_zero (Nat.eq_zero_of_not_pos hempty)
      rw [nil_append, huser, hnil]

theorem readSample_ok {r : SampleRecord} (hsize : r.size < 65536)
    (h : ∀ ip ∈ r.kernelIPs ++ r.userIPs, ip ≠ perfContextKernel ∧ ip ≠ perfContextUser) :
    readSample ([u64 r.ip, u32 r.pid, u32 r.tid, u64 r.time, u32 r.cpu, u32 0, u64 r.period,
      u64 (UInt64.ofNat r.chain.length)] ++ r.chain.map u64).flatten = .ok r := by
  have hnr : (UInt64.ofNat r.chain.length).toNat = r.chain.length := by
    rw [UInt64.toNat_ofNat']
    unfold SampleRecord.size at hsize
    omega
  have hchain : Reads nothing (readIPs (UInt64.ofNat r.chain.length).toNat) (r.chain.map u64).flatten r.chain := by
    rw [hnr]
    exact reads_ips r.chain
  have hsplit := splitChain_chain h
  have hbody : Reads nothing readSampleBody ([u64 r.ip, u32 r.pid, u32 r.tid, u64 r.time, u32 r.cpu, u32 0,
      u64 r.period, u64 (UInt64.ofNat r.chain.length)] ++ r.chain.map u64).flatten r := by
    simp only [flatten_append, flatten_cons, flatten_nil, append_nil, append_assoc]
    refine (reads_u64 r.ip).bind ((reads_u32 r.pid).bind ((reads_u32 r.tid).bind ((reads_u64 r.time).bind ?_)))
    refine (reads_u32 r.cpu).bind ((reads_u32 0).bind ((reads_u64 r.period).bind ((reads_u64 _).bind ?_)))
    have hmap := hchain.map fun chain =>
      ({ ip := r.ip, pid := r.pid, tid := r.tid, time := r.time, cpu := r.cpu, period := r.period,
         kernelIPs := (splitChain false chain).1, userIPs := (splitChain false chain).2 } : SampleRecord)
    simp only [hsplit] at hmap
    exact hmap
  unfold readSample
  rw [run_of_reads_all hbody]
  rfl

namespace Record

def type : Record → UInt32
  | .comm _ => 3
  | .mmap2 _ => 10
  | .sample _ => 9
  | .finishedRound => 68

def misc : Record → UInt16
  | .mmap2 r => if r.buildID.isSome then miscMmapBuildID else 0
  | _ => 0

def body : Record → List UInt8
  | .comm r =>
    ([u32 r.pid, u32 r.tid] ++ cstringPadded8 r.comm ++ encodeSampleID r.pid r.tid r.cpu r.time).flatten
  | .mmap2 r =>
    ([u32 r.pid, u32 r.tid, u64 r.addr, u64 r.len, u64 r.pgoff] ++ encodeUnion r.buildID ++
      [u32 r.prot, u32 r.flags] ++ cstringPadded8 r.filename ++ encodeSampleID r.pid r.tid r.cpu r.time).flatten
  | .sample r =>
    ([u64 r.ip, u32 r.pid, u32 r.tid, u64 r.time, u32 r.cpu, u32 0, u64 r.period,
      u64 (UInt64.ofNat r.chain.length)] ++ r.chain.map u64).flatten
  | .finishedRound => []

def bytes (r : Record) : List UInt8 := r.encode.flatten

theorem bytes_eq (r : Record) : r.bytes = (encodeHeader r.type r.misc r.size).flatten ++ r.body := by
  cases r <;> simp only [bytes, encode, encodeComm, encodeMmap2, encodeSample, encodeFinishedRound, type, misc, size, body,
    flatten_append, append_assoc, append_nil]

@[simp] theorem length_encodeHeader (type : UInt32) (misc : UInt16) (size : ℕ) :
    (encodeHeader type misc size).flatten.length = recordHeaderSize := by
  simp [encodeHeader, recordHeaderSize]

theorem length_encodeUnion (buildID : Option (UInt8 × BuildID)) : (encodeUnion buildID).flatten.length = 24 := by
  cases buildID with
  | none => rfl
  | some b => simp [encodeUnion, b.2.2]

theorem length_words (vs : List UInt64) : (vs.map u64).flatten.length = 8 * vs.length := by
  induction vs with
  | nil => rfl
  | cons v vs ih =>
    rw [map_cons, flatten_cons, List.length_append, length_u64, ih, length_cons]
    omega

theorem length_bytes (r : Record) : r.bytes.length = r.size := by
  rw [bytes_eq, List.length_append, length_encodeHeader]
  cases r with
  | comm r =>
    simp only [body, size, CommRecord.size, flatten_append, List.length_append, length_cstringPadded8,
      length_encodeSampleID]
    simp [recordHeaderSize]
    omega
  | mmap2 r =>
    simp only [body, size, Mmap2Record.size, flatten_append, List.length_append, length_cstringPadded8,
      length_encodeSampleID, length_encodeUnion]
    simp
  | sample r =>
    simp only [body, size, SampleRecord.size, flatten_append, List.length_append, length_words]
    simp
  | finishedRound => rfl

end Record

theorem readRecord_ok (spec : EventSpec) {r : Record} (h : r.Fits) :
    readRecord spec.attr r.type r.misc r.body = .ok (r, r.sampleID) := by
  have hattr : ¬(spec.attr.sampleType ≠ sampleTypes ∨ spec.attr.flags &&& flagSampleIDAll = 0) := by
    rintro (hne | hzero)
    · exact hne rfl
    · cases hfreq : spec.frequency <;> simp only [EventSpec.attr, hfreq] at hzero <;> exact absurd hzero (by decide)
  unfold readRecord
  rw [if_neg hattr]
  cases r with
  | comm r =>
    have htype : (Record.comm r).type = 3 := rfl
    rw [htype, if_pos rfl]
    simp only [Record.body, readComm_ok h.2, bind, Except.bind]
    rfl
  | mmap2 r =>
    have htype : (Record.mmap2 r).type = 10 := rfl
    rw [htype, if_neg (by decide), if_pos rfl]
    simp only [Record.body, Record.misc, readMmap2_ok h.2, bind, Except.bind]
    rfl
  | sample r =>
    have htype : (Record.sample r).type = 9 := rfl
    rw [htype, if_neg (by decide), if_neg (by decide), if_pos rfl]
    simp only [Record.body, readSample_ok h.1 h.2, bind, Except.bind]
    rfl
  | finishedRound =>
    rw [if_neg (by decide), if_neg (by decide), if_neg (by decide), if_pos ⟨rfl, rfl⟩]
    rfl

theorem reads_recordHeader (r : Record) : Reads nothing readRecordHeader (encodeHeader r.type r.misc r.size).flatten
      (r.type, r.misc, UInt16.ofNat r.size) := by
  exact (reads_u32 r.type).bind ((reads_u16 r.misc).bind ((reads_u16 _).bind (reads_pure _)))

def dataOf (rs : List Record) : List UInt8 := (rs.map Record.bytes).flatten

theorem readRecords_ok (spec : EventSpec) {rs : List Record} (h : ∀ r ∈ rs, r.Fits) {fuel : ℕ}
    (hfuel : (dataOf rs).length ≤ fuel) :
    readRecords spec.attr fuel (dataOf rs) = .ok (rs.map fun r => (r, r.sampleID)) := by
  induction rs generalizing fuel with
  | nil =>
    cases fuel <;> rfl
  | cons r rs ih =>
    have hr := h r mem_cons_self
    have hdata : dataOf (r :: rs) = r.bytes ++ dataOf rs := rfl
    have hlength := r.length_bytes
    have hsize : recordHeaderSize ≤ r.size := by
      rw [← hlength, r.bytes_eq, List.length_append, Record.length_encodeHeader]
      exact Nat.le_add_right _ _
    have hnat : (UInt16.ofNat r.size).toNat = r.size := by
      rw [UInt16.toNat_ofNat']
      exact Nat.mod_eq_of_lt hr.1
    rw [hdata, List.length_append, hlength] at hfuel
    have hhead : recordHeaderSize = 8 := rfl
    obtain ⟨fuel, rfl⟩ : ∃ n, fuel = n + 1 := ⟨fuel - 1, by omega⟩
    have hrest := ih (fun r' hr' => h r' (mem_cons_of_mem _ hr')) (show (dataOf rs).length ≤ fuel by omega)
    have hne : dataOf (r :: rs) ≠ [] := by
      rw [hdata]
      intro hnil
      have := congrArg List.length hnil
      rw [List.length_append, hlength, length_nil] at this
      omega
    rw [readRecords.eq_3 _ _ _ hne, hdata]
    have hheader := run_of_reads (reads_recordHeader r) (r.body ++ dataOf rs)
    rw [← append_assoc, ← r.bytes_eq] at hheader
    have hfits : ¬(r.size < recordHeaderSize ∨ (r.bytes ++ dataOf rs).length < r.size) := by
      rw [List.length_append, hlength]
      omega
    have htake : (r.bytes ++ dataOf rs).take r.size = r.bytes := take_left' hlength
    have hdrop : (r.bytes ++ dataOf rs).drop r.size = dataOf rs := drop_left' hlength
    have hbody : r.bytes.drop recordHeaderSize = r.body := by
      rw [r.bytes_eq]
      exact drop_left' (Record.length_encodeHeader _ _ _)
    simp only [bind, Except.bind, hheader, hnat, if_neg hfits, htake, hdrop, hbody, readRecord_ok spec hr, hrest]
    rfl

/-! ## The header and the attribute -/

theorem reads_section (s : Section) : Reads nothing readSection (u64 s.offset ++ u64 s.size) s :=
  (reads_u64 s.offset).bind ((reads_u64 s.size).map _)

theorem length_encodeFileHeader (h : FileHeader) : (encodeFileHeader h).flatten.length = fileHeaderSize := by
  simp [encodeFileHeader, fileHeaderSize]

theorem length_encodeEventAttr (a : EventAttr) : (encodeEventAttr a).flatten.length = attrV8Size := by
  simp [encodeEventAttr, attrV8Size]

theorem leValue_bitmap (bits : UInt64) : leValue (u64 bits ++ (u64 0 ++ (u64 0 ++ u64 0))) = bits.toNat := by
  have hzero : leValue (u64 0 ++ (u64 0 ++ u64 0)) = 0 := by decide
  rw [leValue_append, hzero, leValue_u64, Nat.mul_zero, Nat.add_zero]

theorem reads_header (h : FileHeader) : Reads nothing readHeader (encodeFileHeader h).flatten
      { attrSize := UInt64.ofNat attrV8Size, attrs := h.attrs, data := h.data, features := h.addsFeatures.toNat } := by
  have hbits : Reads nothing (take 32) (u64 h.addsFeatures ++ (u64 0 ++ (u64 0 ++ u64 0)))
      (u64 h.addsFeatures ++ (u64 0 ++ (u64 0 ++ u64 0))) := reads_take (by simp)
  have hlast := hbits.map fun bits =>
    ({ attrSize := UInt64.ofNat attrV8Size, attrs := h.attrs, data := h.data, features := leValue bits } : ReadHeader)
  rw [leValue_bitmap] at hlast
  have hflat : (encodeFileHeader h).flatten = u64 magicPERFILE2 ++ (u64 (UInt64.ofNat fileHeaderSize) ++
      (u64 (UInt64.ofNat attrV8Size) ++ ((u64 h.attrs.offset ++ u64 h.attrs.size) ++
      ((u64 h.data.offset ++ u64 h.data.size) ++ ((u64 h.eventTypes.offset ++ u64 h.eventTypes.size) ++
      (u64 h.addsFeatures ++ (u64 0 ++ (u64 0 ++ u64 0)))))))) := by
    simp [encodeFileHeader]
  rw [hflat]
  refine (reads_u64 magicPERFILE2).bind (Reads.guard (fun hne => hne rfl) ?_)
  refine (reads_u64 _).bind ((reads_u64 _).bind ((reads_section h.attrs).bind ((reads_section h.data).bind ?_)))
  exact (reads_section h.eventTypes).bind hlast

theorem reads_attr (a : EventAttr) : Reads nothing readAttr (encodeEventAttr a).flatten a := by
  have hrest : ([u32 0, u64 0, u64 0, u64 0, u64 0, u32 0, u32 0, u64 0, u32 0, u16 0, u16 0, u32 0, u32 0,
      u64 0, u64 0] : List (List UInt8)).flatten.length = 84 := by simp
  refine (reads_u32 a.typ).bind ((reads_u32 _).bind (Reads.guard (fun hne => hne (by decide)) ?_))
  refine (reads_u64 a.config).bind ((reads_u64 a.samplePeriod).bind ((reads_u64 a.sampleType).bind ?_))
  refine (reads_u64 0).bind ((reads_u64 a.flags).bind ((reads_u32 a.wakeupEvents).bind ?_))
  exact (reads_take hrest).map _

/-! ## Features -/

def placed (cursor : ℕ) : List Feature → List ReadFeature
  | [] => []
  | f :: fs =>
    { bit := f.bit
      place := { offset := UInt64.ofNat cursor, size := UInt64.ofNat f.body.length }
      body := f.body } :: placed (cursor + f.body.length) fs

def payloadOf (fs : List Feature) : List UInt8 := (fs.map Feature.body).flatten

theorem sectionsFrom_eq (cursor : ℕ) (fs : List Feature) :
    sectionsFrom (UInt64.ofNat cursor) fs = (placed cursor fs).map ReadFeature.place := by
  induction fs generalizing cursor with
  | nil => rfl
  | cons f fs ih =>
    rw [sectionsFrom, placed, map_cons, ← ih, UInt64.ofNat_add]

theorem slice_append {before body after : List UInt8} (h : (before ++ body ++ after).length ≤ OpenFile.maxOffset) :
    slice (before ++ body ++ after) { offset := UInt64.ofNat before.length, size := UInt64.ofNat body.length } =
      .ok body := by
  rw [List.length_append, List.length_append] at h
  have hmax : OpenFile.maxOffset = 9223372036854775807 := rfl
  have hoffset : (UInt64.ofNat before.length).toNat = before.length := by
    rw [UInt64.toNat_ofNat']
    omega
  have hsize : (UInt64.ofNat body.length).toNat = body.length := by
    rw [UInt64.toNat_ofNat']
    omega
  unfold slice
  rw [hoffset, hsize, if_pos (by simp), append_assoc, drop_left, take_left]

variable {fs : List Feature}

theorem readFeatures_ok {before : List UInt8} (rest : List UInt8)
    (h : (before ++ payloadOf fs).length ≤ OpenFile.maxOffset) :
    readFeatures (before ++ payloadOf fs) (fs.map Feature.bit)
      ((encodeFeatureIndexTable ((placed before.length fs).map ReadFeature.place)).flatten ++ rest) =
      .ok (placed before.length fs) := by
  induction fs generalizing before with
  | nil => rfl
  | cons f fs ih =>
    have hall : before ++ payloadOf (f :: fs) = before ++ f.body ++ payloadOf fs := by
      rw [append_assoc]
      rfl
    rw [hall] at h ⊢
    have hrest := ih h
    rw [List.length_append] at hrest
    have hslice := slice_append h
    have hsection := run_of_reads
      (reads_section { offset := UInt64.ofNat before.length, size := UInt64.ofNat f.body.length })
      ((encodeFeatureIndexTable ((placed (before.length + f.body.length) fs).map ReadFeature.place)).flatten ++ rest)
    have htable : (encodeFeatureIndexTable ((placed before.length (f :: fs)).map ReadFeature.place)).flatten ++ rest =
        (u64 (UInt64.ofNat before.length) ++ u64 (UInt64.ofNat f.body.length)) ++
        ((encodeFeatureIndexTable ((placed (before.length + f.body.length) fs).map ReadFeature.place)).flatten ++
          rest) := by
      simp [encodeFeatureIndexTable, placed]
    rw [htable, map_cons, readFeatures]
    simp only [bind, Except.bind, hsection, hslice, hrest]
    rfl

theorem setBits_features (info : MetaInfo) (buildIDs : List BuildIDEntry) :
    setBits (featureBits (features info buildIDs)).toNat = (features info buildIDs).map Feature.bit := by
  have hbits : ∀ fs : List Feature, featureBits fs =
      (fs.map Feature.bit).foldl (fun bits bit => bits ||| (1 <<< UInt64.ofNat bit)) 0 := by
    intro fs
    unfold featureBits
    rw [foldl_map]
  rw [hbits]
  unfold features
  by_cases h₂ : buildIDs.length > 0 <;> by_cases h₃ : info.hostname ≠ [] <;> by_cases h₄ : info.osRelease ≠ [] <;>
    by_cases h₇ : info.numCPUs > 0 <;>
    simp only [h₂, h₃, h₄, h₇, if_true, if_false, map_append, map_cons, map_nil, not_false_eq_true, ne_eq] <;> decide

/-! ## The file -/

/-- The bytes before the data: the header, the attribute and the empty table of its ids. -/
def preamble (h : FileHeader) (spec : EventSpec) : List UInt8 :=
  (encodeFileHeader h).flatten ++ ((encodeEventAttr spec.attr).flatten ++ (u64 0 ++ u64 0))

theorem length_preamble (h : FileHeader) (spec : EventSpec) : (preamble h spec).length = 256 := by
  unfold preamble
  rw [List.length_append, List.length_append, length_encodeFileHeader, length_encodeEventAttr, List.length_append,
    length_u64]
  rfl

/-- The header that `Close` writes. -/
def headerOf (rs : List Record) (fs : List Feature) : FileHeader where
  attrs := { offset := UInt64.ofNat fileHeaderSize, size := UInt64.ofNat attrV8Size }
  data := { offset := UInt64.ofNat 256, size := UInt64.ofNat (dataOf rs).length }
  addsFeatures := featureBits fs

def payloadBegin (rs : List Record) (fs : List Feature) : ℕ := 256 + (dataOf rs).length + fs.length * 16

def indexOf (rs : List Record) (fs : List Feature) : List UInt8 :=
  (encodeFeatureIndexTable (sectionsFrom (UInt64.ofNat (payloadBegin rs fs)) fs)).flatten

def fileOf (h : FileHeader) (spec : EventSpec) (rs : List Record) (fs : List Feature) : List UInt8 :=
  preamble h spec ++ dataOf rs ++ indexOf rs fs ++ payloadOf fs

theorem length_indexOf (rs : List Record) (fs : List Feature) : (indexOf rs fs).length = fs.length * 16 := by
  have hlength : ∀ (cursor : UInt64) (fs : List Feature),
      (encodeFeatureIndexTable (sectionsFrom cursor fs)).flatten.length = fs.length * 16 := by
    intro cursor fs
    induction fs generalizing cursor with
    | nil => rfl
    | cons f fs ih =>
      have hcons : (encodeFeatureIndexTable (sectionsFrom cursor (f :: fs))).flatten =
          u64 cursor ++ (u64 (UInt64.ofNat f.body.length) ++
            (encodeFeatureIndexTable (sectionsFrom (cursor + UInt64.ofNat f.body.length) fs)).flatten) := by
        simp [encodeFeatureIndexTable, sectionsFrom]
      rw [hcons, List.length_append, List.length_append, length_u64, length_u64, ih, length_cons]
      omega
  exact hlength _ fs

theorem readFile_ok (spec : EventSpec) {rs : List Record} (hfits : ∀ r ∈ rs, r.Fits)
    (hbits : setBits (featureBits fs).toNat = fs.map Feature.bit)
    (hmax : (fileOf (headerOf rs fs) spec rs fs).length ≤ OpenFile.maxOffset) :
    readFile (fileOf (headerOf rs fs) spec rs fs) =
      .ok { attr := spec.attr
            records := rs.map fun r => (r, r.sampleID)
            features := placed (payloadBegin rs fs) fs } := by
  have hpre := length_preamble (headerOf rs fs) spec
  have hheader : run readHeader (fileOf (headerOf rs fs) spec rs fs) = .ok
      ({ attrSize := UInt64.ofNat attrV8Size, attrs := (headerOf rs fs).attrs, data := (headerOf rs fs).data,
         features := (featureBits fs).toNat },
        (encodeEventAttr spec.attr).flatten ++ (u64 0 ++ u64 0) ++ dataOf rs ++ indexOf rs fs ++ payloadOf fs) := by
    have hrun := run_of_reads (reads_header (headerOf rs fs))
      ((encodeEventAttr spec.attr).flatten ++ (u64 0 ++ u64 0) ++ dataOf rs ++ indexOf rs fs ++ payloadOf fs)
    simp only [← append_assoc] at hrun
    unfold fileOf preamble
    simp only [← append_assoc]
    exact hrun
  have hattr : slice (fileOf (headerOf rs fs) spec rs fs) (headerOf rs fs).attrs =
      .ok (encodeEventAttr spec.attr).flatten := by
    have hfile : fileOf (headerOf rs fs) spec rs fs = (encodeFileHeader (headerOf rs fs)).flatten ++
        (encodeEventAttr spec.attr).flatten ++ (u64 0 ++ u64 0 ++ dataOf rs ++ indexOf rs fs ++ payloadOf fs) := by
      simp only [fileOf, preamble, append_assoc]
    rw [hfile] at hmax ⊢
    have hslice := slice_append hmax
    rw [length_encodeFileHeader, length_encodeEventAttr] at hslice
    exact hslice
  have hdata : slice (fileOf (headerOf rs fs) spec rs fs) (headerOf rs fs).data = .ok (dataOf rs) := by
    have hfile : fileOf (headerOf rs fs) spec rs fs =
        preamble (headerOf rs fs) spec ++ dataOf rs ++ (indexOf rs fs ++ payloadOf fs) := by
      simp only [fileOf, append_assoc]
    rw [hfile] at hmax ⊢
    have hslice := slice_append hmax
    rw [hpre] at hslice
    exact hslice
  have hfeatures : readFeatures (fileOf (headerOf rs fs) spec rs fs) (fs.map Feature.bit)
      ((fileOf (headerOf rs fs) spec rs fs).drop
        ((headerOf rs fs).data.offset.toNat + (headerOf rs fs).data.size.toNat)) =
      .ok (placed (payloadBegin rs fs) fs) := by
    have hlength : (preamble (headerOf rs fs) spec ++ dataOf rs ++ indexOf rs fs).length = payloadBegin rs fs := by
      rw [List.length_append, List.length_append, hpre, length_indexOf]
      rfl
    have hend : (headerOf rs fs).data.offset.toNat + (headerOf rs fs).data.size.toNat =
        (preamble (headerOf rs fs) spec ++ dataOf rs).length := by
      have hle : (dataOf rs).length ≤ OpenFile.maxOffset := by
        refine Nat.le_trans ?_ hmax
        simp only [fileOf, List.length_append]
        omega
      have hnum : OpenFile.maxOffset = 9223372036854775807 := rfl
      rw [List.length_append, hpre]
      change (UInt64.ofNat 256).toNat + (UInt64.ofNat (dataOf rs).length).toNat = _
      rw [UInt64.toNat_ofNat', UInt64.toNat_ofNat']
      omega
    have htable := readFeatures_ok (payloadOf fs) hmax
    rw [hlength, ← sectionsFrom_eq] at htable
    rw [hend]
    unfold fileOf
    rw [append_assoc (preamble _ _ ++ dataOf rs), drop_left, ← append_assoc]
    exact htable
  unfold readFile
  simp only [bind, Except.bind, hheader]
  rw [if_neg (fun hne => hne rfl)]
  simp only [hattr, run_of_reads_all (reads_attr spec.attr), hdata, readRecords_ok spec hfits (Nat.le_refl _), hbits,
    hfeatures]
  rfl

/-! ## The calls -/

def added (onNewPID : Option NewPID) : List UInt32 → List Call → List Record
  | _, [] => []
  | seen, .addComm r :: cs => .comm r :: added onNewPID seen cs
  | seen, .addMmap2 r :: cs => .mmap2 r :: added onNewPID seen cs
  | seen, .addSample r :: cs =>
    newRecords onNewPID seen r.pid ++ .sample r :: added onNewPID (see onNewPID seen r.pid) cs
  | seen, .addFinishedRound :: cs => .finishedRound :: added onNewPID seen cs
  | seen, .addBuildID _ :: cs => added onNewPID seen cs

def buildIDsOf (calls : List Call) : List BuildIDEntry :=
  calls.filterMap fun c => match c with
    | .addBuildID e => some e
    | _ => none

structure Writing (spec : EventSpec) (info : MetaInfo) (rs : List Record) (w : Writer) : Prop where
  sound : w.out.Sound (preamble {} spec ++ dataOf rs)
  err : w.err = w.out.err
  pos : w.err = false → w.pos = 256 + (dataOf rs).length
  dataBeg : w.dataBeg = 256
  info : w.info = info

variable (disk : Disk)

theorem dataOf_append (rs rs' : List Record) : dataOf (rs ++ rs') = dataOf rs ++ dataOf rs' := by
  unfold dataOf
  rw [map_append, flatten_append]

section Calls

variable {spec : EventSpec} {info : MetaInfo} {rs : List Record} {w : Writer}

theorem openWriter_out (spec : EventSpec) (info : MetaInfo) (onNewPID : Option NewPID) :
    (openWriter disk spec info onNewPID).out = { buffer := preamble {} spec } := by
  have hall : (encodeFileHeader {} ++ (encodeEventAttr spec.attr ++ [u64 0, u64 0])).flatten = preamble {} spec := by
    simp only [preamble, flatten_append, flatten_cons, flatten_nil, append_nil]
  have hfits : (preamble {} spec).length ≤ BufferedFile.bufferSize := by
    rw [length_preamble]
    decide
  have hbuffered := BufferedFile.writeAll_new_of_fits disk {} hall hfits
  unfold openWriter
  simp only
  rw [← BufferedFile.writeAll_append, ← BufferedFile.writeAll_append]
  exact hbuffered

theorem writing_openWriter (spec : EventSpec) (info : MetaInfo) (onNewPID : Option NewPID) :
    Writing spec info [] (openWriter disk spec info onNewPID) where
  sound := by
    rw [openWriter_out]
    refine ⟨fun _ => ⟨rfl, ?_, Nat.zero_le _, rfl⟩, nofun⟩
    rw [nil_append]
    exact (append_nil _).symm
  err := by
    rw [openWriter_out]
    rfl
  pos := by
    intro _
    unfold openWriter
    rfl
  dataBeg := by
    unfold openWriter
    rfl
  info := rfl

theorem Writing.writeRecord (h : Writing spec info rs w) (disk : Disk) (r : Record) :
    Writing spec info (rs ++ [r]) (w.writeRecord disk r) := by
  have hdata : dataOf (rs ++ [r]) = dataOf rs ++ r.bytes := by
    rw [dataOf_append]
    simp [dataOf]
  unfold Writer.writeRecord
  by_cases herr : w.err = true
  · rw [if_pos herr]
    have hout : w.out.err = true := h.err ▸ herr
    refine ⟨⟨fun hno => absurd (hno.symm.trans hout) Bool.false_ne_true, h.sound.failed⟩, h.err, ?_, h.dataBeg, h.info⟩
    exact fun hno => absurd (hno.symm.trans herr) Bool.false_ne_true
  · rw [if_neg herr]
    obtain ⟨hsound, hcount⟩ := BufferedFile.write_sound disk h.sound r.bytes
    rw [append_assoc, ← hdata] at hsound
    refine ⟨hsound, rfl, fun hok => ?_, h.dataBeg, h.info⟩
    change w.pos + (w.out.write disk r.bytes).2 = _
    rw [hcount hok, h.pos (Bool.eq_false_iff.mpr herr), hdata, List.length_append, Nat.add_assoc]

theorem Writing.writeRecords (h : Writing spec info rs w) (disk : Disk) (rs' : List Record) :
    Writing spec info (rs ++ rs') (rs'.foldl (Writer.writeRecord disk) w) := by
  induction rs' generalizing rs w with
  | nil =>
    rw [append_nil]
    exact h
  | cons r rs' ih =>
    rw [append_cons]
    exact ih (h.writeRecord disk r)

theorem writeRecord_rest (w : Writer) (r : Record) :
    (w.writeRecord disk r).onNewPID = w.onNewPID ∧ (w.writeRecord disk r).seenPIDs = w.seenPIDs ∧
    (w.writeRecord disk r).buildIDs = w.buildIDs := by
  unfold Writer.writeRecord
  split <;> exact ⟨rfl, rfl, rfl⟩

theorem writeRecords_rest (w : Writer) (rs : List Record) :
    (rs.foldl (Writer.writeRecord disk) w).onNewPID = w.onNewPID ∧
    (rs.foldl (Writer.writeRecord disk) w).seenPIDs = w.seenPIDs ∧
    (rs.foldl (Writer.writeRecord disk) w).buildIDs = w.buildIDs := by
  induction rs generalizing w with
  | nil => exact ⟨rfl, rfl, rfl⟩
  | cons r rs ih =>
    obtain ⟨hcallback, hseen, hids⟩ := writeRecord_rest disk w r
    obtain ⟨hcallback', hseen', hids'⟩ := ih (w.writeRecord disk r)
    exact ⟨hcallback'.trans hcallback, hseen'.trans hseen, hids'.trans hids⟩

theorem Writing.calls (h : Writing spec info rs w) (disk : Disk) (calls : List Call) :
    Writing spec info (rs ++ added w.onNewPID w.seenPIDs calls) (calls.foldl (Writer.call disk) w) ∧
    (calls.foldl (Writer.call disk) w).buildIDs = w.buildIDs ++ buildIDsOf calls := by
  induction calls generalizing rs w with
  | nil =>
    rw [added, append_nil]
    exact ⟨h, (append_nil _).symm⟩
  | cons c calls ih =>
    -- one record for a call, and the rest goes on from there
    have hone : ∀ r : Record, Writing spec info (rs ++ r :: added w.onNewPID w.seenPIDs calls)
          (calls.foldl (Writer.call disk) (w.writeRecord disk r)) ∧
        (calls.foldl (Writer.call disk) (w.writeRecord disk r)).buildIDs = w.buildIDs ++ buildIDsOf calls := by
      intro r
      obtain ⟨hcallback, hseen, hids⟩ := writeRecord_rest disk w r
      have hrest := ih (h.writeRecord disk r)
      rw [hcallback, hseen, hids, append_assoc, singleton_append] at hrest
      exact hrest
    cases c with
    | addComm r => exact hone _
    | addMmap2 r => exact hone _
    | addFinishedRound => exact hone _
    | addBuildID e =>
      have hadd : Writing spec info rs (w.addBuildID e) := ⟨h.sound, h.err, h.pos, h.dataBeg, h.info⟩
      obtain ⟨hwriting, hids⟩ := ih hadd
      refine ⟨hwriting, hids.trans ?_⟩
      change w.buildIDs ++ [e] ++ buildIDsOf calls = w.buildIDs ++ e :: buildIDsOf calls
      rw [append_assoc, singleton_append]
    | addSample r =>
      have hsee : Writing spec info rs { w with seenPIDs := see w.onNewPID w.seenPIDs r.pid } :=
        ⟨h.sound, h.err, h.pos, h.dataBeg, h.info⟩
      have hnew := hsee.writeRecords disk (newRecords w.onNewPID w.seenPIDs r.pid)
      obtain ⟨hcallback, hseen, hids⟩ := writeRecords_rest disk { w with seenPIDs := see w.onNewPID w.seenPIDs r.pid }
        (newRecords w.onNewPID w.seenPIDs r.pid)
      have hrest := ih (hnew.writeRecord disk (.sample r))
      obtain ⟨hcallback', hseen', hids'⟩ := writeRecord_rest disk _ (.sample r)
      rw [hcallback', hseen', hids', hcallback, hseen, hids, append_assoc, append_assoc, singleton_append] at hrest
      exact hrest

/-! ## Closing -/

theorem Writing.appendFeatures (h : Writing spec info rs w) (disk : Disk) (herr : w.err = false) (fs : List Feature) :
    ((w.out.writeAll disk (encodeFeatureIndexTable (sectionsFrom (UInt64.ofNat (w.pos + fs.length * 16)) fs))).writeAll
      disk (fs.map Feature.body)).Sound (fileOf {} spec rs fs) := by
  have hindex := BufferedFile.writeAll_sound disk h.sound
    (encodeFeatureIndexTable (sectionsFrom (UInt64.ofNat (w.pos + fs.length * 16)) fs))
  have hpayload := BufferedFile.writeAll_sound disk hindex (fs.map Feature.body)
  rw [h.pos herr] at hpayload ⊢
  exact hpayload

theorem put_header {f : OpenFile} {h h' : FileHeader} {rest : List UInt8}
    (hbytes : f.bytes = (encodeFileHeader h).flatten ++ rest) :
    (f.seekStart.put (encodeFileHeader h').flatten).bytes = (encodeFileHeader h').flatten ++ rest := by
  change f.bytes.take 0 ++ (encodeFileHeader h').flatten ++ f.bytes.drop (0 + (encodeFileHeader h').flatten.length) = _
  rw [take_zero, nil_append, Nat.zero_add, length_encodeFileHeader, hbytes, drop_left' (length_encodeFileHeader h)]

theorem flush_header (f : OpenFile) (h : FileHeader) :
    let patched := (({ file := f.seekStart } : BufferedFile).writeAll disk (encodeFileHeader h)).flush disk
    (patched.err = true ∧ patched.file.failed = true) ∨
    (patched.err = false ∧ patched.file = f.seekStart.put (encodeFileHeader h).flatten) := by
  have hfits : (encodeFileHeader h).flatten.length ≤ BufferedFile.bufferSize := by
    rw [length_encodeFileHeader]
    decide
  have hne : (encodeFileHeader h).flatten ≠ [] := by
    intro hnil
    have hlength := length_encodeFileHeader h
    rw [hnil] at hlength
    cases hlength
  intro patched
  have hpatched : patched = ({ file := f.seekStart, buffer := (encodeFileHeader h).flatten } : BufferedFile).flush disk :=
    congrArg (BufferedFile.flush disk) (BufferedFile.writeAll_new_of_fits disk f.seekStart rfl hfits)
  rw [hpatched]
  unfold BufferedFile.flush
  rw [if_neg (by simpa using hne)]
  cases hok : (f.seekStart.write disk (encodeFileHeader h).flatten).2.2 with
  | false => exact .inl ⟨by simp [hok], OpenFile.write_failed hok⟩
  | true =>
    rw [(OpenFile.write_ok hok).2]
    exact .inr ⟨rfl, rfl⟩

theorem Writing.close (h : Writing spec info rs w) (disk : Disk) (faults : CloseFaults) :
    ((w.close disk faults).1.failed = false → faults = {} → (w.close disk faults).2 = .ok () ∧
      (w.close disk faults).1.bytes =
        fileOf (headerOf rs (features info w.buildIDs)) spec rs (features info w.buildIDs) ∧
      (w.close disk faults).1.bytes.length ≤ OpenFile.maxOffset) ∧
    (w.out.file.failed = true ∨ (w.close disk faults).1.failed = true → (w.close disk faults).2 ≠ .ok ()) := by
  unfold Writer.close
  by_cases herr : w.err = true
  · rw [if_pos herr]
    have hfailed := h.sound.failed (h.err ▸ herr)
    exact ⟨fun hok => absurd (hok.symm.trans hfailed) Bool.false_ne_true, fun _ => nofun⟩
  rw [if_neg herr]
  have hno := Bool.eq_false_iff.mpr herr
  have hunfailed : w.out.file.failed = false := (h.sound.appended (h.err ▸ hno)).unfailed
  have hsound := h.appendFeatures disk hno (features info w.buildIDs)
  obtain ⟨hflush, hempty⟩ := BufferedFile.flush_sound disk hsound
  simp only [h.info]
  generalize BufferedFile.flush disk _ = out at hflush hempty ⊢
  by_cases hflushed : out.err = true
  · rw [if_pos hflushed]
    have hfailed := hflush.failed hflushed
    exact ⟨fun hok => absurd (hok.symm.trans hfailed) Bool.false_ne_true, fun _ => nofun⟩
  rw [if_neg hflushed]
  have hok := Bool.eq_false_iff.mpr hflushed
  have hall := (hflush.appended hok).bytes
  rw [hempty hok, append_nil] at hall
  by_cases hseek : faults.seek = true
  · rw [if_pos hseek]
    refine ⟨fun _ hnone => ?_, fun _ => nofun⟩
    rw [hnone] at hseek
    cases hseek
  rw [if_neg hseek]
  have hsize : w.pos - w.dataBeg = (dataOf rs).length := by
    rw [h.pos hno, h.dataBeg, Nat.add_sub_cancel_left]
  have hheader : ({ attrs := { offset := UInt64.ofNat fileHeaderSize, size := UInt64.ofNat attrV8Size }
                    data := { offset := UInt64.ofNat w.dataBeg, size := UInt64.ofNat (w.pos - w.dataBeg) }
                    addsFeatures := featureBits (features info w.buildIDs) } : FileHeader) =
      headerOf rs (features info w.buildIDs) := by
    rw [hsize, h.dataBeg]
    rfl
  have hpatched := flush_header disk out.file (headerOf rs (features info w.buildIDs))
  simp only [hheader]
  simp only at hpatched
  generalize BufferedFile.flush disk _ = patched at hpatched ⊢
  rcases hpatched with ⟨hfails, hfailed⟩ | ⟨hpatched, hput⟩
  · rw [if_pos hfails]
    exact ⟨fun hok => absurd (hok.symm.trans hfailed) Bool.false_ne_true, fun _ => nofun⟩
  rw [if_neg (Bool.eq_false_iff.mp hpatched)]
  by_cases hclose : faults.close = true
  · rw [if_pos hclose]
    refine ⟨fun _ hnone => ?_, fun _ => nofun⟩
    rw [hnone] at hclose
    cases hclose
  rw [if_neg hclose]
  have hfile : patched.file.bytes =
      fileOf (headerOf rs (features info w.buildIDs)) spec rs (features info w.buildIDs) := by
    rw [hput]
    unfold fileOf preamble at hall ⊢
    simp only [append_assoc] at hall ⊢
    exact put_header hall
  have hlength : patched.file.bytes.length = out.file.bytes.length := by
    rw [hfile, hall]
    unfold fileOf
    simp only [List.length_append, length_preamble]
  refine ⟨fun _ _ => ⟨rfl, hfile, ?_⟩, ?_⟩
  · change patched.file.bytes.length ≤ _
    rw [hlength]
    exact (hflush.appended hok).fits
  · -- nothing has failed
    rintro (hfailed | hfailed)
    · exact absurd (hunfailed.symm.trans hfailed) Bool.false_ne_true
    · change patched.file.failed = true at hfailed
      rw [hput] at hfailed
      exact absurd ((hflush.appended hok).unfailed.symm.trans hfailed) Bool.false_ne_true

end Calls

/-! ## The round trip -/

def writerAfter (spec : EventSpec) (info : MetaInfo) (onNewPID : Option NewPID) (calls : List Call) : Writer :=
  calls.foldl (Writer.call disk) (openWriter disk spec info onNewPID)

/-- The file after calls and `Close`, and what `Close` has returned. -/
def closedAfter (faults : CloseFaults) (spec : EventSpec) (info : MetaInfo) (onNewPID : Option NewPID)
    (calls : List Call) : OpenFile × Except CloseError Unit :=
  (writerAfter disk spec info onNewPID calls).close disk faults

def expected (spec : EventSpec) (info : MetaInfo) (onNewPID : Option NewPID) (calls : List Call) : PerfData where
  attr := spec.attr
  records := (added onNewPID [] calls).map fun r => (r, r.sampleID)
  features := placed (payloadBegin (added onNewPID [] calls) (features info (buildIDsOf calls)))
    (features info (buildIDsOf calls))

/-- If no write has failed, the file is closed and read back: the attribute, the records in order, with their trailers
and the two parts of each call chain, and the features where they are.  If one has, `Close` does not succeed. -/
theorem perfData_round_trip (disk : Disk) (faults : CloseFaults) (spec : EventSpec) (info : MetaInfo)
    (onNewPID : Option NewPID) {calls : List Call} (hfits : ∀ r ∈ added onNewPID [] calls, r.Fits) :
    ((closedAfter disk faults spec info onNewPID calls).1.failed = false → faults = {} →
      (closedAfter disk faults spec info onNewPID calls).2 = .ok () ∧
      readFile (closedAfter disk faults spec info onNewPID calls).1.bytes = .ok (expected spec info onNewPID calls)) ∧
    ((writerAfter disk spec info onNewPID calls).out.file.failed = true ∨
        (closedAfter disk faults spec info onNewPID calls).1.failed = true →
      (closedAfter disk faults spec info onNewPID calls).2 ≠ .ok ()) := by
  have hafter : Writing spec info (added onNewPID [] calls) (writerAfter disk spec info onNewPID calls) ∧
      (writerAfter disk spec info onNewPID calls).buildIDs = buildIDsOf calls :=
    (writing_openWriter disk spec info onNewPID).calls disk calls
  obtain ⟨hwriting, hids⟩ := hafter
  have hclose := hwriting.close disk faults
  rw [hids] at hclose
  obtain ⟨hok, hfailed⟩ := hclose
  refine ⟨fun hunfailed hnone => ?_, hfailed⟩
  obtain ⟨hresult, hbytes, hmax⟩ := hok hunfailed hnone
  refine ⟨hresult, ?_⟩
  rw [hbytes] at hmax
  exact (congrArg readFile hbytes).trans (readFile_ok spec hfits (setBits_features info _) hmax)

/-! ## One file -/

def oneCallback : NewPID := fun pid =>
  ([{ pid, tid := pid, comm := [108, 115] }],
    [{ pid, tid := pid, addr := 0x400000, len := 0x1000, pgoff := 0, buildID := some (20, ⟨List.replicate 20 7, rfl⟩),
       prot := 5, flags := 2, filename := [47, 108, 115] }])

/-- Two samples of a process, the first of which brings its name and its mapping, and a build-id. -/
def fewCalls : List Call :=
  [.addSample { ip := 0x400010, pid := 7, tid := 7, time := 1, cpu := 0, period := 1, userIPs := [0x400010, 0x400200],
                kernelIPs := [0xffffffff81000000] },
    .addSample { ip := 0x400020, pid := 7, tid := 8, time := 2, cpu := 1, period := 1 },
    .addFinishedRound,
    .addBuildID { pid := 0xffffffff, buildID := ⟨List.replicate 20 7, rfl⟩, filename := [47, 108, 115] }]

def wallClock : EventSpec := { type := 1, config := 0, samplePeriod := 99, frequency := true }

def oneHost : MetaInfo := { hostname := [104], osRelease := [54], numCPUs := 8 }

theorem fewCalls_fit : ∀ r ∈ added (some oneCallback) [] fewCalls, r.Fits := by decide +kernel

theorem perfData_round_trip_fewCalls :
    (closedAfter (fun _ => none) {} wallClock oneHost (some oneCallback) fewCalls).2 = .ok () ∧
    readFile (closedAfter (fun _ => none) {} wallClock oneHost (some oneCallback) fewCalls).1.bytes =
      .ok (expected wallClock oneHost (some oneCallback) fewCalls) ∧
    ((expected wallClock oneHost (some oneCallback) fewCalls).features.map fun f =>
      (f.bit, f.place.offset.toNat, f.place.size.toNat)) = [(2, 632, 44), (3, 676, 12), (4, 688, 12), (7, 700, 8)] := by
  obtain ⟨hclosed, hread⟩ :=
    (perfData_round_trip (fun _ => none) {} wallClock oneHost (some oneCallback) fewCalls_fit).1 (by decide +kernel) rfl
  exact ⟨hclosed, hread, by decide +kernel⟩

end PerfAgent.Perfdata
