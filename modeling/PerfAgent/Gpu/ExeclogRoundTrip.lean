import Mathlib.Data.Finset.Card
import PerfAgent.Gpu.Execlog

/-!
# The execution log is read back, and only as a whole

What `Finish` publishes, `Read` returns: the header, the rows, and the counts.  The one field
that the format does not keep is the correlation of a row that has none, which is read as zero.

A file that is accepted is taken to its last byte, and nothing of the reader's answers depends
on bytes that it has not taken; so no part of an accepted file is accepted, nor anything longer.
-/

namespace PerfAgent.Gpu.Execlog

open StreamParser List

/-! ## Nothing longer is accepted -/

theorem local_readField : Local readField := by
  refine (local_readUvarint _ _).bind fun n => Local.ite (local_throw _) ?_
  exact local_block _ _ _

theorem local_readHeader : Local readHeader := by
  refine (local_block _ _ _).bind fun m => Local.ite (local_throw _) ?_
  refine local_readField.bind fun _ => local_readField.bind fun _ => ?_
  exact local_readField.bind fun _ => local_pure _

theorem local_readCorrelation (p : Progress) (flags : UInt8) : Local (readCorrelation p flags) :=
  Local.ite ((local_readUvarint _ _).bind fun _ => local_pure _) (local_pure _)

theorem local_readRow (p : Progress) : Local (readRow p) := by
  refine (local_readUvarint _ _).bind fun sample => Local.ite (local_throw _) ?_
  refine (local_readUvarint _ _).bind fun delta => Local.ite (local_throw _) ?_
  refine Local.ite (local_throw _) ((local_item _ _).bind fun flags => ?_)
  refine Local.ite (local_throw _) ((local_readCorrelation p flags).bind fun c => ?_)
  exact (local_readUvarint _ _).bind fun _ => local_pure _

theorem local_readRows (fuel : Nat) (p : Progress) : Local (readRows fuel p) := by
  induction fuel generalizing p with
  | zero => exact local_throw _
  | succ fuel ih =>
    refine (local_item _ _).bind fun tag => Local.ite (local_pure _) ?_
    refine Local.ite (local_throw _) ((local_readRow p).bind fun r => ?_)
    exact (ih r.2).bind fun _ => local_pure _

theorem local_readTrailer : Local readTrailer := by
  refine (local_readUvarint _ _).bind fun _ => (local_readUvarint _ _).bind fun _ => ?_
  refine (local_readUvarint _ _).bind fun _ => (local_block _ _ _).bind fun sha => ?_
  split
  · exact local_pure _
  · exact local_throw _

theorem local_readBody (fuel : Nat) : Local (readBody fuel) := by
  refine local_readHeader.bind fun _ => (local_readRows fuel {}).bind fun _ => ?_
  exact local_readTrailer.bind fun _ => local_pure _

variable {y : (List Row × Progress) × (List UInt8 × UInt32)} {x : List UInt8 × UInt32}

theorem readRows_mono {fuel : Nat} {p : Progress} (h : readRows fuel p x = .ok y) :
    readRows (fuel + 1) p x = .ok y := by
  induction fuel generalizing p x y with
  | zero => cases h
  | succ fuel ih =>
    obtain ⟨tag, x₁, htag, h⟩ := bind_eq_ok.mp h
    refine bind_eq_ok.mpr ⟨tag, x₁, htag, ?_⟩
    split at h
    · next ht => rwa [if_pos ht]
    next ht =>
    rw [if_neg ht]
    split at h
    · cases h
    next ht' =>
    rw [if_neg ht']
    obtain ⟨r, x₂, hr, h⟩ := bind_eq_ok.mp h
    obtain ⟨rest, x₃, hrest, h⟩ := bind_eq_ok.mp h
    exact bind_eq_ok.mpr ⟨r, x₂, hr, bind_eq_ok.mpr ⟨rest, x₃, ih hrest, h⟩⟩

theorem readRows_mono_le {fuel fuel' : Nat} (hle : fuel ≤ fuel') {p : Progress} (h : readRows fuel p x = .ok y) :
    readRows fuel' p x = .ok y := by
  induction hle with
  | refl => exact h
  | step _ ih => exact readRows_mono ih

theorem readBody_mono {fuel fuel' : Nat} (hle : fuel ≤ fuel')
    {y : (Header × (List Row × Progress) × Trailer) × (List UInt8 × UInt32)} (h : readBody fuel x = .ok y) :
    readBody fuel' x = .ok y := by
  obtain ⟨hd, x₁, hh, h⟩ := bind_eq_ok.mp h
  obtain ⟨rows, x₂, hrows, h⟩ := bind_eq_ok.mp h
  exact bind_eq_ok.mpr ⟨hd, x₁, hh, bind_eq_ok.mpr ⟨rows, x₂, readRows_mono_le hle hrows, h⟩⟩

def Accepted (b : List UInt8) : Prop := ∃ r, read b = .ok r

theorem read_eq_ok {b : List UInt8} {r : Header × List Row × Trailer} : read b = .ok r ↔ ∃ p rest crc,
      readBody (b.length + 1) (b, crcInit) = .ok ((r.1, (r.2.1, p), r.2.2), (rest, crc)) ∧
        verify p r.2.2 rest crc = .ok () := by
  unfold read
  cases hbody : readBody (b.length + 1) (b, crcInit) with
  | error e =>
    constructor
    · intro h
      cases h
    · rintro ⟨p, rest, crc, h, -⟩
      cases h
  | ok y =>
    obtain ⟨⟨h, ⟨rows, p⟩, t⟩, rest, crc⟩ := y
    cases hv : verify p t rest crc with
    | error e =>
      constructor
      · intro heq
        simp only [bind, Except.bind, hv] at heq
        cases heq
      · rintro ⟨p', rest', crc', heq, hok⟩
        cases heq
        cases hv.symm.trans hok
    | ok u =>
      simp only [bind, Except.bind, hv]
      constructor
      · intro heq
        cases heq
        exact ⟨p, rest, crc, rfl, hv⟩
      · rintro ⟨p', rest', crc', heq, -⟩
        cases heq
        rfl

variable {crc : UInt32}

theorem verify_length {p : Progress} {t : Trailer} {rest : List UInt8} (h : verify p t rest crc = .ok ()) :
    rest.length = 4 := by
  unfold verify at h
  split at h
  · cases h
  next hsum =>
  split at h
  · cases h
  next hend =>
  have hle : ¬rest.length < 4 := fun hc => hsum (.inl hc)
  have hdrop : rest.drop 4 = [] := by simpa using hend
  have := drop_eq_nil_iff.mp hdrop
  omega

theorem not_accepted_longer {b ext : List UInt8} (hb : Accepted b) (hb' : Accepted (b ++ ext)) :
    ext = [] := by
  obtain ⟨r, hr⟩ := hb
  obtain ⟨r', hr'⟩ := hb'
  obtain ⟨p, rest, crc, hbody, hverify⟩ := read_eq_ok.mp hr
  obtain ⟨p', rest', crc', hbody', hverify'⟩ := read_eq_ok.mp hr'
  -- the reader stops at the same place on the longer file
  obtain ⟨c, hc, hsame⟩ := local_readBody _ _ _ _ _ _ hbody
  have hlonger := hsame (rest ++ ext)
  rw [← append_assoc, ← hc] at hlonger
  have hfuel : b.length + 1 ≤ (b ++ ext).length + 1 := by simp
  have heq := (readBody_mono hfuel hlonger).symm.trans hbody'
  obtain ⟨-, hrest⟩ := Prod.mk.inj (Except.ok.inj heq)
  obtain ⟨hrest, -⟩ := Prod.mk.inj hrest
  have hlen := verify_length hverify
  have hlen' := verify_length hverify'
  rw [← hrest, List.length_append] at hlen'
  exact eq_nil_of_length_eq_zero (by omega)

/-! ## The header -/

theorem reads_readField {f : List UInt8} (hf : f.length ≤ maxStringLen) :
    Reads crcByte readField (stringField f) f := by
  have hn : (UInt64.ofNat f.length).toNat = f.length := by
    rw [UInt64.toNat_ofNat']
    have hmax : maxStringLen = 4096 := rfl
    omega
  refine (reads_uvarint crcByte _ _).bind (Reads.guard ?_ (reads_block _ hn.symm))
  rw [hn]
  exact Nat.not_lt.mpr hf

variable {h : Header}

theorem reads_readHeader (h₁ : h.captureID.length ≤ maxStringLen) (h₂ : h.backend.length ≤ maxStringLen)
    (h₃ : h.sampleType.length ≤ maxStringLen) :
    Reads crcByte readHeader (magic ++ (stringField h.captureID ++ (stringField h.backend ++
      stringField h.sampleType))) h := by
  refine (reads_block _ rfl).bind (Reads.guard (fun hne => hne rfl) ?_)
  refine (reads_readField h₁).bind ((reads_readField h₂).bind ?_)
  exact (reads_readField h₃).map _

/-! ## The rows -/

def Row.kept (r : Row) : Row := { r with correlation := if r.hasCorrelation then r.correlation else 0 }

structure Agrees (w : Writer) (p : Progress) : Prop where
  rows : p.rows = w.rows
  executions : p.executions = w.executions
  nextOrdinal : p.nextOrdinal = w.nextOrdinal
  prevCorrelation : p.prevCorrelation = w.prevCorrelation

theorem add_of_err_none {w : Writer} {r : Row} (hdone : w.done = false) (h : (w.add r).err = none) :
    w.err = none ∧ w.nextOrdinal ≤ r.execution + 1 ∧ r.execution ≠ 0xFFFFFFFFFFFFFFFF ∧
      w.add r = { w with
        out := w.out ++ w.encodeRow r
        prevCorrelation := if r.hasCorrelation then r.correlation else w.prevCorrelation
        executions :=
          if r.execution + 1 - w.nextOrdinal > 0 then w.executions + 1 else w.executions
        nextOrdinal := r.execution + 1
        rows := w.rows + 1 } := by
  unfold Writer.add at h ⊢
  split at h
  · next herr => simp [h, hdone] at herr
  next herr =>
  split at h
  · cases h
  next hord =>
  rw [if_neg herr, if_neg hord]
  obtain ⟨hle, hne⟩ := not_or.mp hord
  exact ⟨h, UInt64.not_lt.mp hle, hne, rfl⟩

theorem reads_readCorrelation {w : Writer} {p : Progress} (h : Agrees w p) (r : Row) :
    Reads crcByte (readCorrelation p (Writer.flags r))
      (if r.hasCorrelation then uvarint (zigzag (r.correlation - w.prevCorrelation)) else [])
      (r.hasCorrelation, r.kept.correlation) := by
  unfold readCorrelation Writer.flags Row.kept
  cases r.hasCorrelation with
  | false => exact reads_pure _
  | true =>
    have hread := (reads_uvarint crcByte (Corrupt.badCorrelation p.rows)
      (zigzag (r.correlation - w.prevCorrelation))).map fun z => (true, p.prevCorrelation + unzigzag z)
    have hsum : p.prevCorrelation + (r.correlation - w.prevCorrelation) = r.correlation := by
      rw [h.prevCorrelation, UInt64.add_comm]
      exact UInt64.sub_add_cancel _ _
    rw [unzigzag_zigzag, hsum] at hread
    exact hread

theorem ordinal_eq (next execution : UInt64) :
    (if execution + 1 - next > 0 then next + (execution + 1 - next) else next) = execution + 1 := by
  split
  · rw [UInt64.add_comm]
    exact UInt64.sub_add_cancel _ _
  · next hzero =>
    have hz : execution + 1 - next = 0 := UInt64.le_zero_iff.mp (UInt64.not_lt.mp hzero)
    have h := UInt64.sub_add_cancel (execution + 1) next
    rw [hz, UInt64.zero_add] at h
    exact h

theorem row_eq {w : Writer} {p : Progress} (h : Agrees w p) (r : Row) :
    p.row r.sample.toUInt64 (r.execution + 1 - w.nextOrdinal) (r.hasCorrelation, r.kept.correlation) r.value =
      (r.kept, p.next (r.execution + 1 - w.nextOrdinal) r.kept) := by
  have hexec : (if r.execution + 1 - w.nextOrdinal > 0 then
      p.nextOrdinal + (r.execution + 1 - w.nextOrdinal) else p.nextOrdinal) - 1 = r.execution := by
    rw [h.nextOrdinal, ordinal_eq]
    exact UInt64.add_sub_cancel _ _
  unfold Progress.row
  rw [hexec, UInt32.toUInt32_toUInt64]
  rfl

theorem reads_readRow {w : Writer} {p : Progress} {r : Row} (h : Agrees w p)
    (hle : w.nextOrdinal ≤ r.execution + 1) (hne : r.execution ≠ 0xFFFFFFFFFFFFFFFF)
    (hfirst : w.rows = 0 → w.nextOrdinal = 0) :
    Reads crcByte (readRow p) (uvarint r.sample.toUInt64 ++ (uvarint (r.execution + 1 - w.nextOrdinal) ++
        (Writer.flags r :: ((if r.hasCorrelation then uvarint (zigzag (r.correlation - w.prevCorrelation)) else []) ++
            uvarint r.value))))
      (r.kept, p.next (r.execution + 1 - w.nextOrdinal) r.kept) := by
  refine (reads_uvarint crcByte _ _).bind (Reads.guard ?_ ?_)
  · have hlt := r.sample.toNat_lt
    rw [UInt32.toNat_toUInt64]
    omega
  refine (reads_uvarint crcByte _ _).bind (Reads.guard ?_ (Reads.guard ?_ ?_))
  · rintro ⟨hrows, hdelta⟩
    rw [hfirst (h.rows ▸ hrows), UInt64.sub_zero] at hdelta
    have hlast := UInt64.add_sub_cancel r.execution 1
    rw [hdelta] at hlast
    exact hne hlast.symm
  · rintro ⟨hpos, hlt⟩
    have heq := ordinal_eq w.nextOrdinal r.execution
    rw [if_pos hpos] at heq
    rw [h.nextOrdinal, heq] at hlt
    exact absurd hle (UInt64.not_le.mpr hlt)
  refine (reads_item _ (Writer.flags r)).bind (c := [Writer.flags r]) (Reads.guard ?_ ?_)
  · unfold Writer.flags
    cases r.hasCorrelation <;> decide
  refine (reads_readCorrelation h r).bind ?_
  have hread := (reads_uvarint crcByte (Corrupt.badValue p.rows) r.value).map
    (p.row r.sample.toUInt64 (r.execution + 1 - w.nextOrdinal) (r.hasCorrelation, r.kept.correlation))
  rw [row_eq h r] at hread
  exact hread

theorem Agrees.next {w : Writer} {p : Progress} {r : Row} (h : Agrees w p) (hdone : w.done = false)
    (herr : (w.add r).err = none) :
    Agrees (w.add r) (p.next (r.execution + 1 - w.nextOrdinal) r.kept) := by
  obtain ⟨-, hle, -, hadd⟩ := add_of_err_none hdone herr
  rw [hadd]
  refine ⟨?_, ?_, ?_, ?_⟩
  · show p.rows + 1 = w.rows + 1
    rw [h.rows]
  · show (if _ then p.executions + 1 else p.executions) = _
    rw [h.executions]
  · show (if _ then p.nextOrdinal + _ else p.nextOrdinal) = r.execution + 1
    rw [h.nextOrdinal, ordinal_eq]
  · show (if r.hasCorrelation then r.kept.correlation else p.prevCorrelation) = _
    rw [h.prevCorrelation]
    unfold Row.kept
    cases r.hasCorrelation <;> rfl

def encodeRows (w : Writer) : List Row → List UInt8
  | [] => []
  | r :: rs => w.encodeRow r ++ encodeRows (w.add r) rs

theorem done_add (w : Writer) (r : Row) : (w.add r).done = w.done := by
  unfold Writer.add
  split
  · rfl
  · split <;> rfl

theorem err_of_foldl {w : Writer} {rows : List Row} (hdone : w.done = false)
    (h : (rows.foldl Writer.add w).err = none) : w.err = none := by
  induction rows generalizing w with
  | nil => exact h
  | cons r rs ih => exact (add_of_err_none hdone (ih ((done_add w r).trans hdone) h)).1

theorem out_foldl {w : Writer} {rows : List Row} (hdone : w.done = false) (h : (rows.foldl Writer.add w).err = none) :
    (rows.foldl Writer.add w).out = w.out ++ encodeRows w rows := by
  induction rows generalizing w with
  | nil => exact (append_nil _).symm
  | cons r rs ih =>
    have hdone' : (w.add r).done = false := (done_add w r).trans hdone
    obtain ⟨-, -, -, hadd⟩ := add_of_err_none hdone (err_of_foldl hdone' h)
    rw [foldl_cons, ih hdone' h, encodeRows, ← append_assoc]
    congr 1
    rw [hadd]

theorem length_encodeRows (w : Writer) (rows : List Row) : rows.length ≤ (encodeRows w rows).length := by
  induction rows generalizing w with
  | nil => exact Nat.le_refl _
  | cons r rs ih =>
    have h := ih (w.add r)
    simp only [encodeRows, Writer.encodeRow, List.length_append, length_cons]
    omega

theorem maxSample_next {p : Progress} {n : Int} {delta : UInt64} {r : Row} (hp : p.maxSample < n)
    (hr : (r.sample.toNat : Int) < n) : (p.next delta r.kept).maxSample < n := by
  unfold Progress.next
  simp only
  split
  · exact hr
  · exact hp

theorem reads_readRows {rows : List Row} {w : Writer} {p : Progress} {fuel : Nat}
    (h : Agrees w p) (hdone : w.done = false) (herr : (rows.foldl Writer.add w).err = none)
    (hfirst : w.rows = 0 → w.nextOrdinal = 0) (hcount : w.rows.toNat + rows.length < 2 ^ 64)
    (hfuel : rows.length < fuel) :
    ∃ p', Agrees (rows.foldl Writer.add w) p' ∧
      (∀ n : Int, p.maxSample < n → (∀ r ∈ rows, (r.sample.toNat : Int) < n) → p'.maxSample < n) ∧
      Reads crcByte (readRows fuel p) (encodeRows w rows ++ [tagTrailer]) (rows.map Row.kept, p') := by
  induction rows generalizing w p fuel with
  | nil =>
    obtain ⟨fuel, rfl⟩ := Nat.exists_eq_add_one_of_ne_zero (Nat.ne_of_gt hfuel)
    refine ⟨p, h, fun _ hp _ => hp, ?_⟩
    refine (reads_item _ tagTrailer).bind (d := []) ?_
    rw [if_pos rfl]
    exact reads_pure _
  | cons r rs ih =>
    obtain ⟨fuel, rfl⟩ := Nat.exists_eq_add_one_of_ne_zero (Nat.ne_of_gt (Nat.lt_of_le_of_lt (Nat.zero_le _) hfuel))
    have hdone' : (w.add r).done = false := (done_add w r).trans hdone
    have herr' : (w.add r).err = none := err_of_foldl hdone' herr
    obtain ⟨-, hle, hne, hadd⟩ := add_of_err_none hdone herr'
    rw [length_cons] at hcount hfuel
    have hrows : (w.add r).rows.toNat = w.rows.toNat + 1 := by
      rw [hadd, UInt64.toNat_add]
      show (w.rows.toNat + 1) % 2 ^ 64 = _
      omega
    have hfirst' : (w.add r).rows = 0 → (w.add r).nextOrdinal = 0 := by
      intro hzero
      rw [hzero] at hrows
      exact absurd hrows (Nat.succ_ne_zero _).symm
    obtain ⟨p', hagree, hmax, hreads⟩ := ih (h.next hdone herr') hdone' herr hfirst'
      (by omega) (Nat.lt_of_succ_lt_succ hfuel)
    refine ⟨p', hagree, fun n hp hr => ?_, ?_⟩
    · exact hmax n (maxSample_next hp (hr r mem_cons_self))
        fun r' hr' => hr r' (mem_cons_of_mem _ hr')
    · rw [encodeRows, append_assoc]
      refine (reads_item _ tagRow).bind (c := [tagRow]) ?_
      rw [if_neg (by decide), if_neg (by decide)]
      exact (reads_readRow h hle hne hfirst).bind (hreads.map _)

/-! ## The whole file -/

theorem reads_readTrailer (t : Trailer) : Reads crcByte readTrailer (uvarint t.rows ++ (uvarint t.executions ++
      (uvarint t.aggregatedSamples ++ t.profileSHA256.1))) t := by
  refine (reads_uvarint _ _ _).bind ((reads_uvarint _ _ _).bind ((reads_uvarint _ _ _).bind ?_))
  have hsha : Reads crcByte (block crcByte Corrupt.badTrailer 32 >>= fun sha =>
      if h : sha.length = 32 then
        pure ⟨t.rows, t.executions, t.aggregatedSamples, ⟨sha, h⟩⟩
      else throw .badTrailer) (t.profileSHA256.1 ++ []) t := by
    refine (reads_block _ t.profileSHA256.2).bind ?_
    rw [dif_pos t.profileSHA256.2]
    exact reads_pure _
  rwa [append_nil] at hsha

def opened (h : Header) : Writer where
  out := magic ++ (stringField h.captureID ++ (stringField h.backend ++ stringField h.sampleType))

def written (h : Header) (rows : List Row) : Writer := rows.foldl Writer.add (opened h)

def Header.Short (h : Header) : Prop :=
  h.captureID.length ≤ maxStringLen ∧ h.backend.length ≤ maxStringLen ∧ h.sampleType.length ≤ maxStringLen

theorem done_foldl (w : Writer) (rows : List Row) : (rows.foldl Writer.add w).done = w.done := by
  induction rows generalizing w with
  | nil => rfl
  | cons r rs ih => exact (ih (w.add r)).trans (done_add w r)

variable {agg : UInt64} {sha : Digest}

theorem write_eq_ok {rows : List Row} {b : List UInt8} :
    write h rows agg sha = .ok b ↔ h.Short ∧ (written h rows).err = none ∧
      b = (written h rows).out ++ (written h rows).encodeTrailer agg sha ++ putUint32 (sum32 (((written h rows).out ++
          (written h rows).encodeTrailer agg sha).foldl crcByte crcInit)) := by
  have hshort : ([h.captureID, h.backend, h.sampleType].any fun s => s.length > maxStringLen) = true ↔ ¬h.Short := by
    simp only [any_cons, any_nil, Bool.or_false, Bool.or_eq_true, decide_eq_true_eq, Header.Short]
    omega
  unfold write create
  split
  · next hlong =>
    constructor
    · intro heq
      cases heq
    · rintro ⟨hs, -⟩
      exact absurd hs (hshort.mp hlong)
  next hlong =>
  have hs : h.Short := not_not.mp fun hc => hlong (hshort.mpr hc)
  show ((written h rows).finish agg sha).2 = _ ↔ _
  unfold Writer.finish
  rw [if_neg (by rw [written, done_foldl]; exact Bool.false_ne_true)]
  cases herr : (written h rows).err with
  | some e =>
    constructor
    · intro heq
      cases heq
    · rintro ⟨-, hno, -⟩
      cases hno
  | none =>
    constructor
    · intro heq
      cases heq
      exact ⟨hs, rfl, rfl⟩
    · rintro ⟨-, -, rfl⟩
      rfl

theorem verify_ok {w : Writer} {p : Progress} {t : Trailer} (h : Agrees w p) (hrows : t.rows = w.rows)
    (hexecs : t.executions = w.executions) (hmax : p.maxSample < t.aggregatedSamples.toInt64.toInt) :
    verify p t (putUint32 (sum32 crc)) crc = .ok () := by
  unfold verify
  have hsum : ¬((putUint32 (sum32 crc)).length < 4 ∨ uint32 ((putUint32 (sum32 crc)).take 4) ≠ sum32 crc) := by
    rintro (hlt | hne)
    · exact absurd hlt (by decide : ¬4 < 4)
    · exact hne (uint32_putUint32 _)
  have hrange : ¬p.maxSample ≥ t.aggregatedSamples.toInt64.toInt := Int.not_le.mpr hmax
  rw [if_neg hsum, if_neg (fun hne => hne rfl), if_neg, if_neg hrange]
  rintro (hne | hne)
  · exact hne (hrows.trans h.rows.symm)
  · exact hne (hexecs.trans h.executions.symm)

theorem toInt_of_lt {n : UInt64} (h : n.toNat < 2 ^ 63) : n.toInt64.toInt = n.toNat := by
  have hbits : n.toInt64.toInt = n.toBitVec.toInt := rfl
  rw [hbits, BitVec.toInt_eq_toNat_of_lt (by show 2 * n.toNat < 2 ^ 64; omega)]
  rfl

theorem read_write {rows : List Row} {b : List UInt8} (hw : write h rows agg sha = .ok b)
    (hcount : rows.length < 2 ^ 64) (hsample : ∀ r ∈ rows, r.sample.toNat < agg.toNat) (hagg : agg.toNat < 2 ^ 63) :
    read b = .ok (h, rows.map Row.kept, ⟨(written h rows).rows, (written h rows).executions, agg, sha⟩) := by
  obtain ⟨⟨h₁, h₂, h₃⟩, herr, hb⟩ := write_eq_ok.mp hw
  have hout : (written h rows).out = (opened h).out ++ encodeRows (opened h) rows := out_foldl rfl herr
  have hlen : rows.length < b.length + 1 := by
    have hle := length_encodeRows (opened h) rows
    have hb' := congrArg List.length hb
    have ho := congrArg List.length hout
    simp only [List.length_append] at hb' ho
    omega
  have hzero : (opened h).rows.toNat + rows.length < 2 ^ 64 := by
    show 0 + rows.length < 2 ^ 64
    omega
  obtain ⟨p, hagree, hmax, hreads⟩ := @reads_readRows rows (opened h) {} (b.length + 1)
    ⟨rfl, rfl, rfl, rfl⟩ rfl herr (fun _ => rfl) hzero hlen
  -- the trailer's tag ends the loop over rows, the rest is the trailer
  have hbody : Reads crcByte (readBody (b.length + 1))
      ((opened h).out ++ ((encodeRows (opened h) rows ++ [tagTrailer]) ++
        (uvarint (written h rows).rows ++ (uvarint (written h rows).executions ++ (uvarint agg ++ sha.1)))))
      (h, (rows.map Row.kept, p), ⟨(written h rows).rows, (written h rows).executions, agg, sha⟩) := by
    refine (reads_readHeader h₁ h₂ h₃).bind (hreads.bind ?_)
    exact (reads_readTrailer ⟨(written h rows).rows, (written h rows).executions, agg, sha⟩).map _
  have hbytes : (written h rows).out ++ (written h rows).encodeTrailer agg sha =
      (opened h).out ++ ((encodeRows (opened h) rows ++ [tagTrailer]) ++
        (uvarint (written h rows).rows ++ (uvarint (written h rows).executions ++ (uvarint agg ++ sha.1)))) := by
    rw [hout]
    simp only [Writer.encodeTrailer, append_assoc, singleton_append]
  rw [← hbytes] at hbody
  have hread := hbody (putUint32 (sum32 (((written h rows).out ++
    (written h rows).encodeTrailer agg sha).foldl crcByte crcInit))) crcInit
  rw [← hb] at hread
  refine read_eq_ok.mpr ⟨p, _, _, hread, verify_ok hagree rfl rfl ?_⟩
  rw [toInt_of_lt hagg]
  refine hmax _ ?_ fun r hr => by exact_mod_cast hsample r hr
  exact Int.lt_of_lt_of_le (by decide) (Int.natCast_nonneg _)

/-! ## The counts -/

def executionsOf (rows : List Row) : Finset UInt64 := (rows.map (·.execution)).toFinset

theorem executionsOf_concat (rows : List Row) (r : Row) :
    executionsOf (rows ++ [r]) = insert r.execution (executionsOf rows) := by
  ext x
  simp [executionsOf]

theorem mem_executionsOf {rows : List Row} {x : UInt64} : x ∈ executionsOf rows ↔ ∃ r ∈ rows, r.execution = x := by
  simp [executionsOf]

structure Counted (taken : List Row) (w : Writer) : Prop where
  rows : w.rows = UInt64.ofNat taken.length
  executions : w.executions = UInt64.ofNat (executionsOf taken).card
  le_next : ∀ r ∈ taken, r.execution.toNat + 1 ≤ w.nextOrdinal.toNat
  last : w.nextOrdinal = 0 ∨ ∃ r ∈ taken, r.execution.toNat + 1 = w.nextOrdinal.toNat

theorem toNat_succ {n : UInt64} (h : n ≠ 0xFFFFFFFFFFFFFFFF) : (n + 1).toNat = n.toNat + 1 := by
  have hlt := n.toNat_lt
  have hne : n.toNat ≠ 2 ^ 64 - 1 := fun hc => h (UInt64.toNat_inj.mp hc)
  rw [UInt64.toNat_add]
  show (n.toNat + 1) % 2 ^ 64 = _
  omega

theorem Counted.delta_pos_iff {taken : List Row} {w : Writer} {r : Row} (h : Counted taken w)
    (hle : w.nextOrdinal ≤ r.execution + 1) (hne : r.execution ≠ 0xFFFFFFFFFFFFFFFF) :
    r.execution + 1 - w.nextOrdinal > 0 ↔ r.execution ∉ executionsOf taken := by
  have hnext := toNat_succ hne
  have hle' := UInt64.le_iff_toNat_le.mp hle
  have hsub : (r.execution + 1 - w.nextOrdinal).toNat = r.execution.toNat + 1 - w.nextOrdinal.toNat := by
    rw [UInt64.toNat_sub_of_le _ _ hle, hnext]
  have hpos : r.execution + 1 - w.nextOrdinal > 0 ↔ w.nextOrdinal.toNat < r.execution.toNat + 1 := by
    rw [gt_iff_lt, UInt64.lt_iff_toNat_lt, hsub]
    show 0 < _ ↔ _
    omega
  rw [hpos, mem_executionsOf]
  constructor
  · rintro hlt ⟨x, hx, heq⟩
    have hx' := h.le_next x hx
    rw [heq] at hx'
    omega
  · intro hno
    by_contra hge
    have heq : w.nextOrdinal.toNat = r.execution.toNat + 1 := by omega
    rcases h.last with hzero | ⟨x, hx, hlast⟩
    · rw [hzero] at heq
      cases heq
    · exact hno ⟨x, hx, UInt64.toNat_inj.mp (by omega)⟩

theorem Counted.add {taken : List Row} {w : Writer} {r : Row} (h : Counted taken w)
    (hdone : w.done = false) (herr : (w.add r).err = none) : Counted (taken ++ [r]) (w.add r) := by
  obtain ⟨-, hle, hne, hadd⟩ := add_of_err_none hdone herr
  have hnext := toNat_succ hne
  have hle' := UInt64.le_iff_toNat_le.mp hle
  have hdelta := h.delta_pos_iff hle hne
  rw [hadd]
  refine ⟨?_, ?_, fun x hx => ?_, .inr ⟨r, by simp, hnext.symm⟩⟩
  · rw [List.length_append, UInt64.ofNat_add, h.rows]
    rfl
  · rw [executionsOf_concat, h.executions]
    by_cases hmem : r.execution ∈ executionsOf taken
    · rw [Finset.insert_eq_of_mem hmem]
      exact if_neg fun hpos => hdelta.mp hpos hmem
    · rw [Finset.card_insert_of_notMem hmem, UInt64.ofNat_add]
      exact if_pos (hdelta.mpr hmem)
  · show x.execution.toNat + 1 ≤ (r.execution + 1).toNat
    rw [hnext] at hle' ⊢
    rcases mem_append.mp hx with hx | hx
    · exact (h.le_next x hx).trans hle'
    · rw [mem_singleton.mp hx]

theorem done_written (h : Header) (rows : List Row) : (written h rows).done = false :=
  done_foldl (opened h) rows

theorem written_concat (h : Header) (rows : List Row) (r : Row) : written h (rows ++ [r]) = (written h rows).add r := by
  simp [written, foldl_append]

theorem counted_written {rows : List Row} (herr : (written h rows).err = none) : Counted rows (written h rows) := by
  induction rows using List.reverseRecOn with
  | nil => exact ⟨rfl, rfl, nofun, .inl rfl⟩
  | append_singleton rows r ih =>
    rw [written_concat] at herr ⊢
    obtain ⟨herr', -⟩ := add_of_err_none (done_written h rows) herr
    exact (ih herr').add (done_written h rows) herr

theorem err_written_iff {rows : List Row} (hsorted : rows.Pairwise fun r r' => r.execution ≤ r'.execution) :
    (written h rows).err = none ↔ ∀ r ∈ rows, r.execution ≠ 0xFFFFFFFFFFFFFFFF := by
  induction rows using List.reverseRecOn with
  | nil => exact ⟨fun _ => nofun, fun _ => rfl⟩
  | append_singleton rows r ih =>
    obtain ⟨hrows, -, hle⟩ := pairwise_append.mp hsorted
    rw [written_concat]
    constructor
    · intro herr x hx
      obtain ⟨herr', -, hne, -⟩ := add_of_err_none (done_written h rows) herr
      rcases mem_append.mp hx with hx | hx
      · exact (ih hrows).mp herr' x hx
      · rw [mem_singleton.mp hx]
        exact hne
    · intro hne
      have herr' : (written h rows).err = none :=
        (ih hrows).mpr fun x hx => hne x (mem_append_left _ hx)
      have hr : r.execution ≠ 0xFFFFFFFFFFFFFFFF := hne r (by simp)
      have hnext : (written h rows).nextOrdinal ≤ r.execution + 1 := by
        rw [UInt64.le_iff_toNat_le, toNat_succ hr]
        rcases (counted_written herr').last with hzero | ⟨x, hx, hlast⟩
        · rw [hzero]
          exact Nat.zero_le _
        · have hxr := UInt64.le_iff_toNat_le.mp (hle x hx r (mem_singleton_self r))
          omega
      unfold Writer.add
      rw [if_neg (by simp [herr', done_written]), if_neg]
      · exact herr'
      · rintro (hlt | heq)
        · exact absurd hnext (UInt64.not_le.mpr hlt)
        · exact hr heq

/-! ## Every log -/

/-- For every header and all rows with ordinals that do not decrease and sample indices below
the number of samples: the log is written unless a string of the header is too long or an
ordinal is the greatest; `Read` returns the header, the rows as the log keeps them, and their
numbers.  And of two files that are accepted neither is part of the other. -/
theorem log_round_trip (h : Header) (rows : List Row) (agg : UInt64) (sha : Digest)
    (hsorted : rows.Pairwise fun r r' => r.execution ≤ r'.execution)
    (hsample : ∀ r ∈ rows, r.sample.toNat < agg.toNat) (hagg : agg.toNat < 2 ^ 63)
    (hcount : rows.length < 2 ^ 64) :
    ((∃ b, write h rows agg sha = .ok b) ↔ h.Short ∧ ∀ r ∈ rows, r.execution ≠ 0xFFFFFFFFFFFFFFFF) ∧
    (∀ b, write h rows agg sha = .ok b → read b = .ok (h, rows.map Row.kept, ⟨UInt64.ofNat rows.length,
        UInt64.ofNat (executionsOf rows).card, agg, sha⟩)) ∧
    ∀ b b', Accepted b → Accepted b' → b <+: b' → b = b' := by
  refine ⟨?_, fun b hw => ?_, ?_⟩
  · rw [← err_written_iff (h := h) hsorted]
    constructor
    · rintro ⟨b, hw⟩
      obtain ⟨hshort, herr, -⟩ := write_eq_ok.mp hw
      exact ⟨hshort, herr⟩
    · rintro ⟨hshort, herr⟩
      exact ⟨_, write_eq_ok.mpr ⟨hshort, herr, rfl⟩⟩
  · obtain ⟨-, herr, -⟩ := write_eq_ok.mp hw
    have hcounted := counted_written herr
    rw [read_write hw hcount hsample hagg, hcounted.rows, hcounted.executions]
  · rintro b b' hb hb' ⟨ext, rfl⟩
    rw [not_accepted_longer hb hb', append_nil]

def oneByteHeader : Header := ⟨[0x61], [], []⟩

def zeroDigest : Digest := ⟨List.replicate 32 0, rfl⟩

/-- Two rows of one execution, and one of a later execution whose correlation wraps around. -/
def threeRows : List Row :=
  [{ sample := 0, execution := 0, hasCorrelation := true, correlation := 0xFFFFFFFFFFFFFFFF, value := 7 },
    { sample := 2, execution := 0, value := 0 },
    { sample := 1, execution := 7, hasCorrelation := true, correlation := 5, value := 9 }]

theorem log_round_trip_three_rows : ∃ b, write oneByteHeader threeRows 3 zeroDigest = .ok b ∧
      read b = .ok (oneByteHeader, threeRows, ⟨3, 2, 3, zeroDigest⟩) := by
  obtain ⟨hwrite, hread, -⟩ := log_round_trip oneByteHeader threeRows 3 zeroDigest (by decide)
    (by decide) (by decide) (by decide)
  obtain ⟨b, hb⟩ := hwrite.mpr ⟨⟨by decide, by decide, by decide⟩, by decide⟩
  have hcard : (executionsOf threeRows).card = 2 := by decide
  have hkept : threeRows.map Row.kept = threeRows := by decide
  have hr := hread b hb
  rw [hcard, hkept] at hr
  exact ⟨b, hb, hr⟩

def strayCorrelation : Row := { sample := 0, execution := 0, correlation := 5, value := 1 }

/-- It is read back without that. -/
theorem log_drops_stray_correlation : ∃ b, write oneByteHeader [strayCorrelation] 1 zeroDigest = .ok b ∧
      read b = .ok (oneByteHeader, [{ strayCorrelation with correlation := 0 }], ⟨1, 1, 1, zeroDigest⟩) ∧
      ¬∃ t, read b = .ok (oneByteHeader, [strayCorrelation], t) := by
  have hwrite : ∃ b, write oneByteHeader [strayCorrelation] 1 zeroDigest = .ok b := by
    refine ⟨_, write_eq_ok.mpr ⟨⟨by decide, by decide, by decide⟩, ?_, rfl⟩⟩
    exact (err_written_iff (pairwise_singleton _ _)).mpr (by decide)
  obtain ⟨b, hb⟩ := hwrite
  have hread := read_write hb (by decide) (by decide) (by decide)
  refine ⟨b, hb, hread, ?_⟩
  rintro ⟨t, ht⟩
  have heq : [strayCorrelation].map Row.kept = [strayCorrelation] :=
    congrArg (fun r => r.2.1) (Except.ok.inj (hread.symm.trans ht))
  exact absurd heq (by decide)

end PerfAgent.Gpu.Execlog
