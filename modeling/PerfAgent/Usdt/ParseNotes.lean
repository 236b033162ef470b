import PerfAgent.Unwind.BuildIDNotes
import PerfAgent.Pprof.Frames
import Mathlib.Data.List.DropRight

/-!
# USDT notes

`internal/usdt/usdt.go`: the notes of an ELF section, the descriptor of a probe, the file offset
of an address, and `Parse` over them.  A slice expression is checked against the length of what
it is taken of, so an access past it is a panic here even where the source has capacity left.
-/

namespace PerfAgent.Usdt

open Pprof (ascii)
open Unwind.BuildIDNotes List

/-! ## Numbers -/

variable {ε : Type}

/-- `binary.ByteOrder`. -/
inductive ByteOrder
  | littleEndian
  | bigEndian
  deriving DecidableEq

namespace ByteOrder

variable (order : ByteOrder)

def value (b : List UInt8) : Nat :=
  match order with
  | littleEndian => leValue b
  | bigEndian => leValue b.reverse

def bytes (n v : Nat) : List UInt8 :=
  match order with
  | littleEndian => leBytes n v
  | bigEndian => (leBytes n v).reverse

/-- `order.Uint32` and `order.Uint64`, of `n` bytes. -/
def uint {ε : Type} (n : Nat) (b : List UInt8) : Outcome ε Nat := do
  return order.value (← sliceBytes b 0 n)

@[simp] theorem length_bytes (n v : Nat) : (order.bytes n v).length = n := by
  cases order <;> simp [bytes]

theorem value_bytes {n v : Nat} (h : v < 256 ^ n) : order.value (order.bytes n v) = v := by
  cases order
  · exact leValue_leBytes_of_lt h
  · rw [value, bytes, reverse_reverse, leValue_leBytes_of_lt h]

theorem value_lt (b : List UInt8) : order.value b < 256 ^ b.length := by
  cases order
  · exact leValue_lt b
  · rw [← length_reverse]
    exact leValue_lt b.reverse

theorem bytes_value (b : List UInt8) : order.bytes b.length (order.value b) = b := by
  cases order
  · exact leBytes_leValue b
  · have h := leBytes_leValue b.reverse
    rw [length_reverse] at h
    rw [bytes, value, h, reverse_reverse]

theorem uint_eq {n : Nat} {b : List UInt8} (h : n ≤ b.length) :
    (order.uint n b : Outcome ε Nat) = .ok (order.value (b.take n)) := by
  rw [uint, sliceBytes_left h]
  rfl

end ByteOrder

/-! ## Notes -/

/-- `rawNote`. -/
structure RawNote where
  owner : List UInt8
  typ : UInt32
  desc : List UInt8
  deriving DecidableEq

inductive NotesError
  | truncatedHeader (got : Nat)
  | truncatedName (need got : Nat)
  | truncatedDescriptor (need got : Nat)
  deriving DecidableEq

/-- `align4`, whose sum is one of 64 bits. -/
def align4 (n : UInt32) : Nat := roundUp n.toNat

theorem le_align4 (n : UInt32) : n.toNat ≤ align4 n := le_roundUp n.toNat

/-- `bytes.TrimRight(b, "\x00")`. -/
def trimNuls (b : List UInt8) : List UInt8 := b.rdropWhile (· = 0)

/-- `order.Uint32(data[lo:lo+4])`. -/
def uint32At {ε : Type} (order : ByteOrder) (data : List UInt8) (lo : Nat) : Outcome ε UInt32 := do
  return .ofNat (← order.uint 4 (← sliceBytes data lo (lo + 4)))

/-- The owner of a note whose name field is `namesz` bytes long. -/
def ownerOf {ε : Type} (namesz : UInt32) (data : List UInt8) : Outcome ε (List UInt8) :=
  if 0 < namesz then do return trimNuls (← sliceBytes data 0 namesz.toNat) else return []

def parseNotesLoop (order : ByteOrder) : Nat → List UInt8 → Outcome NotesError (List RawNote)
  | 0, data => if 0 < data.length then .outOfFuel else .ok []
  | fuel + 1, data =>
    if 0 < data.length then
      if data.length < 12 then .error (.truncatedHeader data.length)
      else do
        let namesz ← uint32At order data 0
        let descsz ← uint32At order data 4
        let typ ← uint32At order data 8
        let data ← sliceBytes data 12 data.length
        if data.length < align4 namesz then .error (.truncatedName (align4 namesz) data.length)
        else do
          let owner ← ownerOf namesz data
          let data ← sliceBytes data (align4 namesz) data.length
          if data.length < align4 descsz then .error (.truncatedDescriptor (align4 descsz) data.length)
          else do
            let desc ← sliceBytes data 0 descsz.toNat
            let data ← sliceBytes data (align4 descsz) data.length
            let notes ← parseNotesLoop order fuel data
            return { owner := owner, typ := typ, desc := desc } :: notes
    else .ok []

def parseNotes (data : List UInt8) (order : ByteOrder) : Outcome NotesError (List RawNote) :=
  parseNotesLoop order data.length data

/-! ## Descriptors -/

/-- `stapsdtDescriptor`. -/
structure StapsdtDescriptor where
  location : UInt64
  base : UInt64
  semaphore : UInt64
  provider : List UInt8
  name : List UInt8
  args : List UInt8
  deriving DecidableEq

inductive DescriptorError
  | tooShort (need got : Nat)
  | provider
  | name
  | args
  deriving DecidableEq

/-- `readCString`; the error says which string it is. -/
def readCString (unterminated : DescriptorError) (b : List UInt8) : Outcome DescriptorError (List UInt8 × List UInt8) :=
  match b.findIdx? (· = 0) with
  | none => .error unterminated
  | some idx => do
    let s ← sliceBytes b 0 idx
    let rest ← sliceBytes b (idx + 1) b.length
    return (s, rest)

def readAddr {ε : Type} (order : ByteOrder) (addrSize : Nat) (b : List UInt8) : Outcome ε UInt64 := do
  return .ofNat (← order.uint (if addrSize = 4 then 4 else 8) b)

def parseStapsdtDescriptor (desc : List UInt8) (order : ByteOrder) (addrSize : Nat) :
    Outcome DescriptorError StapsdtDescriptor :=
  if desc.length < addrSize * 3 then .error (.tooShort (addrSize * 3) desc.length)
  else do
    let loc ← readAddr order addrSize (← sliceBytes desc (0 * addrSize) (1 * addrSize))
    let base ← readAddr order addrSize (← sliceBytes desc (1 * addrSize) (2 * addrSize))
    let sem ← readAddr order addrSize (← sliceBytes desc (2 * addrSize) (3 * addrSize))
    let rest ← sliceBytes desc (3 * addrSize) desc.length
    let (provider, rest) ← readCString .provider rest
    let (name, rest) ← readCString .name rest
    let (args, _) ← readCString .args rest
    return ⟨loc, base, sem, provider, name, args⟩

/-! ## Addresses -/

/-- `elf.PT_LOAD`. -/
def ptLoad : UInt32 := 1

/-- A program header as `elf.NewFile` gives it: it refuses an offset or a size in the file that is
negative as a 64-bit integer. -/
structure Prog where
  typ : UInt32
  off : UInt64
  vaddr : UInt64
  filesz : UInt64
  memsz : UInt64
  off_lt : off.toNat < 2 ^ 63
  filesz_lt : filesz.toNat < 2 ^ 63

inductive AddrError
  | noLoadSegment
  | inBSS
  deriving DecidableEq

def vaddrToFileOffset : List Prog → UInt64 → Except AddrError UInt64
  | [], _ => .error .noLoadSegment
  | p :: progs, addr =>
    if p.typ ≠ ptLoad then vaddrToFileOffset progs addr
    else if addr < p.vaddr then vaddrToFileOffset progs addr
    else if p.memsz ≤ addr - p.vaddr then vaddrToFileOffset progs addr
    else if p.filesz ≤ addr - p.vaddr then .error .inBSS
    else .ok (p.off + (addr - p.vaddr))

/-! ## `Parse` -/

inductive ElfClass
  | class32
  | class64
  | other (n : UInt8)
  deriving DecidableEq

/-- A section; `data` is what reading it comes to. -/
structure ElfSection where
  name : List UInt8
  addr : UInt64
  data : Except String (List UInt8)

structure ElfFile where
  cls : ElfClass
  byteOrder : ByteOrder
  sections : List ElfSection
  progs : List Prog

variable (ef : ElfFile)

/-- `ef.Section`. -/
def ElfFile.sectionOf (name : List UInt8) : Option ElfSection := ef.sections.find? (·.name = name)

structure Probe where
  provider : List UInt8
  name : List UInt8
  args : List UInt8
  offset : UInt64
  hasSemaphore : Bool := false
  semaphoreOffset : UInt64 := 0
  deriving DecidableEq

inductive ParseError
  | openingELF (err : String)
  | readingSection (err : String)
  | unsupportedClass (n : UInt8)
  | parsingNotes (err : NotesError)
  | parsingDescriptor (err : DescriptorError)
  | location (provider name : List UInt8) (loc : UInt64) (err : AddrError)
  | semaphore (provider name : List UInt8) (semAddr : UInt64) (err : AddrError)
  deriving DecidableEq

def addrSizeForClass : ElfClass → Except ParseError Nat
  | .class32 => .ok 4
  | .class64 => .ok 8
  | .other n => .error (.unsupportedClass n)

/-- The loop of `Parse` over the notes: the two results of `Parse`. -/
def parseProbes (ef : ElfFile) (addrSize : Nat) :
    List RawNote → List Probe → Outcome Empty (List Probe × Option ParseError)
  | [], probes => .ok (probes, none)
  | n :: notes, probes =>
    if n.typ ≠ 3 ∨ n.owner ≠ ascii "stapsdt" then parseProbes ef addrSize notes probes
    else
      match parseStapsdtDescriptor n.desc ef.byteOrder addrSize with
      | .error err => .ok ([], some (.parsingDescriptor err))
      | .panic => .panic
      | .outOfFuel => .outOfFuel
      | .ok desc =>
        let delta := ((ef.sectionOf (ascii ".stapsdt.base")).map fun s => s.addr - desc.base).getD 0
        match vaddrToFileOffset ef.progs (desc.location + delta) with
        | .error err => .ok ([], some (.location desc.provider desc.name (desc.location + delta) err))
        | .ok offset =>
          let p : Probe := { provider := desc.provider, name := desc.name, args := desc.args, offset := offset }
          if desc.semaphore ≠ 0 then
            match vaddrToFileOffset ef.progs (desc.semaphore + delta) with
            | .error err => .ok ([], some (.semaphore desc.provider desc.name (desc.semaphore + delta) err))
            | .ok semOffset =>
              parseProbes ef addrSize notes (probes ++ [{ p with hasSemaphore := true, semaphoreOffset := semOffset }])
          else parseProbes ef addrSize notes (probes ++ [p])

/-- `Parse`, of what opening the file comes to: the probes and the error. -/
def parse (file : Except String ElfFile) : Outcome Empty (List Probe × Option ParseError) :=
  match file with
  | .error err => .ok ([], some (.openingELF err))
  | .ok ef =>
    match ef.sectionOf (ascii ".note.stapsdt") with
    | none => .ok ([], none)
    | some sec =>
      match sec.data with
      | .error err => .ok ([], some (.readingSection err))
      | .ok data =>
        match addrSizeForClass ef.cls with
        | .error err => .ok ([], some err)
        | .ok addrSize =>
          match parseNotes data ef.byteOrder with
          | .error err => .ok ([], some (.parsingNotes err))
          | .panic => .panic
          | .outOfFuel => .outOfFuel
          | .ok notes => parseProbes ef addrSize notes []

variable {lo : Nat}

/-! ## Reading numbers -/

section Numbers

variable {order : ByteOrder}

/-- The number in the `n` bytes at an offset. -/
def numAt (order : ByteOrder) (data : List UInt8) (lo n : Nat) : Nat := order.value ((data.drop lo).take n)

theorem length_drop_take {data : List UInt8} {n : Nat} (h : lo + n ≤ data.length) :
    ((data.drop lo).take n).length = n := by
  rw [length_take, length_drop]
  omega

theorem numAt_lt {data : List UInt8} {lo n : Nat} (h : lo + n ≤ data.length) : numAt order data lo n < 256 ^ n := by
  have hlt := order.value_lt ((data.drop lo).take n)
  rwa [length_drop_take h] at hlt

theorem numAt_bytes {n v : Nat} (h : v < 256 ^ n) (rest : List UInt8) :
    numAt order (order.bytes n v ++ rest) 0 n = v := by
  rw [numAt, drop_zero, take_left' (order.length_bytes n v), order.value_bytes h]

theorem numAt_append {b : List UInt8} {k : Nat} (hb : b.length = k) (rest : List UInt8) (lo n : Nat) :
    numAt order (b ++ rest) (k + lo) n = numAt order rest lo n := by
  rw [numAt, ← hb, drop_length_add_append]
  rfl

theorem drop_eq_bytes {data : List UInt8} {n : Nat} (h : lo + n ≤ data.length) :
    data.drop lo = order.bytes n (numAt order data lo n) ++ data.drop (lo + n) := by
  have hbytes := order.bytes_value ((data.drop lo).take n)
  rw [length_drop_take h] at hbytes
  rw [numAt, hbytes, ← drop_drop, take_append_drop]

end Numbers

/-! ## Reading notes -/

section Notes

variable {order : ByteOrder}

def word (order : ByteOrder) (data : List UInt8) (lo : Nat) : UInt32 := .ofNat (numAt order data lo 4)

theorem uint32At_eq {data : List UInt8} (h : lo + 4 ≤ data.length) :
    (uint32At order data lo : Outcome ε UInt32) = .ok (word order data lo) := by
  rw [uint32At, sliceBytes_eq (Nat.le_add_right lo 4) h, Nat.add_sub_cancel_left]
  dsimp only [Bind.bind]
  rw [ByteOrder.uint_eq order (length_drop_take h).ge, take_take, Nat.min_self]
  rfl

theorem ownerOf_eq {namesz : UInt32} {data : List UInt8} (h : namesz.toNat ≤ data.length) :
    (ownerOf namesz data : Outcome ε (List UInt8)) = .ok (trimNuls (data.take namesz.toNat)) := by
  unfold ownerOf
  split
  · rw [sliceBytes_left h]
    rfl
  · next hzero =>
    obtain rfl : namesz = 0 := UInt32.le_antisymm (UInt32.not_lt.mp hzero) UInt32.zero_le
    rfl

theorem parseNotesLoop_succ (fuel : Nat) {data : List UInt8} (h : 12 ≤ data.length) :
    parseNotesLoop order (fuel + 1) data =
      if (data.drop 12).length < align4 (word order data 0) then
        .error (.truncatedName (align4 (word order data 0)) (data.drop 12).length)
      else if ((data.drop 12).drop (align4 (word order data 0))).length < align4 (word order data 4) then
        .error (.truncatedDescriptor (align4 (word order data 4))
          ((data.drop 12).drop (align4 (word order data 0))).length)
      else do
        let notes ← parseNotesLoop order fuel
          (((data.drop 12).drop (align4 (word order data 0))).drop (align4 (word order data 4)))
        return {
          owner := trimNuls ((data.drop 12).take (word order data 0).toNat)
          typ := word order data 8
          desc := ((data.drop 12).drop (align4 (word order data 0))).take (word order data 4).toNat } :: notes := by
  have hname := le_align4 (word order data 0)
  have hdesc := le_align4 (word order data 4)
  rw [parseNotesLoop, if_pos (by omega), if_neg (by omega), uint32At_eq (by omega), uint32At_eq (by omega),
    uint32At_eq (by omega), sliceBytes_right h]
  dsimp only [Bind.bind]
  split
  · rfl
  · next hroom =>
    have hroom := Nat.not_lt.mp hroom
    rw [ownerOf_eq (hname.trans hroom), sliceBytes_right hroom]
    dsimp only
    split
    · rfl
    · next hroom' =>
      have hroom' := Nat.not_lt.mp hroom'
      rw [sliceBytes_left (hdesc.trans hroom'), sliceBytes_right hroom']

theorem parseNotesLoop_returns {fuel : Nat} {data : List UInt8} (h : data.length ≤ fuel) :
    (parseNotesLoop order fuel data).Returns := by
  induction fuel generalizing data with
  | zero =>
    rw [parseNotesLoop, if_neg (by omega)]
    trivial
  | succ fuel ih =>
    by_cases hheader : 12 ≤ data.length
    · rw [parseNotesLoop_succ fuel hheader]
      refine .ite (fun _ => trivial) fun _ => .ite (fun _ => trivial) fun _ => (ih ?_).bind fun _ _ => trivial
      simp only [length_drop]
      omega
    · rw [parseNotesLoop]
      exact .ite (fun _ => .ite (fun _ => trivial) fun hlt => absurd hlt (by omega)) fun _ => trivial

theorem toNat_word {data : List UInt8} (h : lo + 4 ≤ data.length) :
    (word order data lo).toNat = numAt order data lo 4 := UInt32.toNat_ofNat_of_lt' (numAt_lt h)

def header (order : ByteOrder) (namesz descsz typ : UInt32) (rest : List UInt8) : List UInt8 :=
  order.bytes 4 namesz.toNat ++ (order.bytes 4 descsz.toNat ++ (order.bytes 4 typ.toNat ++ rest))

section Header

variable (namesz descsz typ : UInt32) (rest : List UInt8)

theorem length_header : (header order namesz descsz typ rest).length = 12 + rest.length := by
  simp only [header, List.length_append, ByteOrder.length_bytes]
  omega

theorem drop_header : (header order namesz descsz typ rest).drop 12 = rest := by
  have hlen := order.length_bytes 4
  rw [header, show 12 = 4 + (4 + 4) from rfl, ← drop_drop, drop_left' (hlen _), ← drop_drop,
    drop_left' (hlen _), drop_left' (hlen _)]

theorem word_header : word order (header order namesz descsz typ rest) 0 = namesz ∧
      word order (header order namesz descsz typ rest) 4 = descsz ∧
      word order (header order namesz descsz typ rest) 8 = typ := by
  have hlen (n : UInt32) : (order.bytes 4 n.toNat).length = 4 := order.length_bytes 4 _
  have hread (n : UInt32) (rest : List UInt8) : word order (order.bytes 4 n.toNat ++ rest) 0 = n := by
    rw [word, numAt_bytes n.toNat_lt, UInt32.ofNat_toNat]
  have happend (n : UInt32) (rest : List UInt8) (lo : Nat) :
      word order (order.bytes 4 n.toNat ++ rest) (4 + lo) = word order rest lo :=
    congrArg UInt32.ofNat (numAt_append (hlen n) rest lo 4)
  refine ⟨hread _ _, ?_, ?_⟩
  · rw [header, show 4 = 4 + 0 from rfl, happend, hread]
  · rw [header, show 8 = 4 + (4 + 0) from rfl, happend, happend, hread]

end Header

theorem eq_header {data : List UInt8} (h : 12 ≤ data.length) :
    data = header order (word order data 0) (word order data 4) (word order data 8) (data.drop 12) := by
  rw [header, toNat_word (by omega), toNat_word (by omega), toNat_word h,
    ← drop_eq_bytes (show 8 + 4 ≤ data.length from h), ← drop_eq_bytes (show 4 + 4 ≤ data.length by omega),
    ← drop_eq_bytes (by omega), drop_zero]

/-- The bytes of notes: each has a header with its two sizes, and both fields are padded to four
bytes. -/
inductive Records (order : ByteOrder) : List UInt8 → List RawNote → Prop
  | nil : Records order [] []
  | cons {namesz descsz typ : UInt32} {name desc rest : List UInt8} {notes : List RawNote}
      (hname : name.length = align4 namesz) (hdesc : desc.length = align4 descsz) (hrest : Records order rest notes) :
      Records order (header order namesz descsz typ (name ++ (desc ++ rest)))
        ({ owner := trimNuls (name.take namesz.toNat), typ := typ, desc := desc.take descsz.toNat } :: notes)

theorem parseNotesLoop_of_records {data : List UInt8} {notes : List RawNote} (h : Records order data notes) :
    ∀ {fuel : Nat}, data.length ≤ fuel → parseNotesLoop order fuel data = .ok notes := by
  induction h with
  | nil => rintro (_ | fuel) - <;> rfl
  | @cons namesz descsz typ name desc rest notes hname hdesc hrest ih =>
    intro fuel hfuel
    rw [length_header, List.length_append, List.length_append] at hfuel
    obtain ⟨fuel, rfl⟩ := Nat.exists_eq_succ_of_ne_zero (show fuel ≠ 0 by omega)
    obtain ⟨hword, hword', hword''⟩ := @word_header order namesz descsz typ (name ++ (desc ++ rest))
    rw [parseNotesLoop_succ fuel (by rw [length_header]; omega), hword, hword', hword'', drop_header,
      drop_left' hname, drop_left' hdesc, if_neg (by rw [List.length_append]; omega),
      if_neg (by rw [List.length_append]; omega), ih (by omega),
      take_append_of_le_length ((le_align4 _).trans hname.ge),
      take_append_of_le_length ((le_align4 _).trans hdesc.ge)]
    rfl

theorem records_of_parseNotesLoop {fuel : Nat} {data : List UInt8} {notes : List RawNote}
    (h : parseNotesLoop order fuel data = .ok notes) : Records order data notes := by
  induction fuel generalizing data notes with
  | zero =>
    rw [parseNotesLoop] at h
    split at h
    · cases h
    · next hdata =>
      obtain rfl := eq_nil_of_length_eq_zero (Nat.eq_zero_of_not_pos hdata)
      cases h
      exact .nil
  | succ fuel ih =>
    by_cases hheader : 12 ≤ data.length
    · rw [parseNotesLoop_succ fuel hheader] at h
      split at h
      · cases h
      · next hname =>
        split at h
        · cases h
        · next hdesc =>
          obtain ⟨notes, hrest, heq⟩ := Outcome.bind_eq_ok.mp h
          cases heq
          have hrecords := @Records.cons order (word order data 0) (word order data 4) (word order data 8) _ _ _ notes
            (length_take_of_le (Nat.not_lt.mp hname)) (length_take_of_le (Nat.not_lt.mp hdesc)) (ih hrest)
          rw [take_append_drop, take_append_drop, take_take, take_take,
            Nat.min_eq_left (le_align4 _), Nat.min_eq_left (le_align4 _), ← eq_header hheader] at hrecords
          exact hrecords
    · rw [parseNotesLoop] at h
      split at h
      · rw [if_pos (by omega)] at h
        cases h
      · next hdata =>
        obtain rfl := eq_nil_of_length_eq_zero (Nat.eq_zero_of_not_pos hdata)
        cases h
        exact .nil

theorem parseNotes_returns (data : List UInt8) : (parseNotes data order).Returns :=
  parseNotesLoop_returns (Nat.le_refl data.length)

theorem parseNotes_eq_ok {data : List UInt8} {notes : List RawNote} :
    parseNotes data order = .ok notes ↔ Records order data notes :=
  ⟨records_of_parseNotesLoop, fun h => parseNotesLoop_of_records h (Nat.le_refl _)⟩

end Notes

/-! ## Writing notes -/

def pad (b : List UInt8) : List UInt8 := b ++ List.replicate (roundUp b.length - b.length) 0

def RawNote.encode (order : ByteOrder) (n : RawNote) (nuls : Nat) : List UInt8 :=
  order.bytes 4 (n.owner.length + nuls) ++ (order.bytes 4 n.desc.length ++ (order.bytes 4 n.typ.toNat ++
    (pad (n.owner ++ List.replicate nuls 0) ++ pad n.desc)))

def encodeNotes (order : ByteOrder) (notes : List (RawNote × Nat)) : List UInt8 :=
  notes.flatMap fun p => p.1.encode order p.2

/-- The owner does not end in a NUL, and the sizes are ones of 32 bits. -/
structure RawNote.Encodable (n : RawNote) (nuls : Nat) : Prop where
  owner : n.owner.getLast? ≠ some 0
  namesz : n.owner.length + nuls < 2 ^ 32
  descsz : n.desc.length < 2 ^ 32

theorem length_pad (b : List UInt8) : (pad b).length = roundUp b.length := by
  rw [pad, List.length_append, length_replicate, Nat.add_sub_cancel' (le_roundUp _)]

theorem take_pad (b : List UInt8) : (pad b).take b.length = b := take_left

theorem trimNuls_append (owner : List UInt8) (h : owner.getLast? ≠ some 0) (nuls : Nat) :
    trimNuls (owner ++ List.replicate nuls 0) = owner := by
  induction nuls with
  | zero =>
    rw [replicate_zero, append_nil]
    refine rdropWhile_eq_self_iff.mpr fun hne hlast => h ?_
    rw [getLast?_eq_some_getLast hne, of_decide_eq_true hlast]
  | succ nuls ih =>
    rw [replicate_succ', ← append_assoc, trimNuls, rdropWhile_concat_pos _ _ _ (by decide)]
    exact ih

theorem records_encodeNotes (order : ByteOrder) (notes : List (RawNote × Nat))
    (h : ∀ p ∈ notes, p.1.Encodable p.2) : Records order (encodeNotes order notes) (notes.map Prod.fst) := by
  induction notes with
  | nil => exact .nil
  | cons p notes ih =>
    obtain ⟨n, nuls⟩ := p
    obtain ⟨howner, hname, hdesc⟩ := h (n, nuls) mem_cons_self
    have hlen : (n.owner ++ List.replicate nuls 0).length = (UInt32.ofNat (n.owner.length + nuls)).toNat := by
      rw [List.length_append, length_replicate, UInt32.toNat_ofNat_of_lt' hname]
    have hlen' : n.desc.length = (UInt32.ofNat n.desc.length).toNat := (UInt32.toNat_ofNat_of_lt' hdesc).symm
    have hrecords := @Records.cons order _ _ n.typ _ _ _ _ ((length_pad _).trans (congrArg roundUp hlen))
      ((length_pad _).trans (congrArg roundUp hlen')) (ih fun p hp => h p (mem_cons_of_mem _ hp))
    rw [← hlen, ← hlen', take_pad, take_pad, trimNuls_append _ howner, header, ← hlen, ← hlen', List.length_append,
      length_replicate] at hrecords
    rw [encodeNotes, flatMap_cons, ← encodeNotes, RawNote.encode, map_cons]
    simp only [append_assoc]
    exact hrecords

theorem parseNotes_encodeNotes (order : ByteOrder) {notes : List (RawNote × Nat)}
    (h : ∀ p ∈ notes, p.1.Encodable p.2) : parseNotes (encodeNotes order notes) order = .ok (notes.map Prod.fst) :=
  parseNotes_eq_ok.mpr (records_encodeNotes order notes h)

variable {desc : List UInt8} (err : DescriptorError)

/-! ## Reading descriptors -/

section Descriptors

variable {order : ByteOrder} {addrSize : Nat}

def StapsdtDescriptor.encode (order : ByteOrder) (addrSize : Nat) (d : StapsdtDescriptor) : List UInt8 :=
  order.bytes addrSize d.location.toNat ++ (order.bytes addrSize d.base.toNat ++
    (order.bytes addrSize d.semaphore.toNat ++ (d.provider ++ 0 :: (d.name ++ 0 :: (d.args ++ [0])))))

/-- The addresses are ones of so many bytes, and the strings have no NUL. -/
structure StapsdtDescriptor.Encodable (addrSize : Nat) (d : StapsdtDescriptor) : Prop where
  location : d.location.toNat < 256 ^ addrSize
  base : d.base.toNat < 256 ^ addrSize
  semaphore : d.semaphore.toNat < 256 ^ addrSize
  provider : 0 ∉ d.provider
  name : 0 ∉ d.name
  args : 0 ∉ d.args

theorem readCString_append {s : List UInt8} (h : 0 ∉ s) (rest : List UInt8) :
    readCString err (s ++ 0 :: rest) = .ok (s, rest) := by
  have hidx : (s ++ 0 :: rest).findIdx? (· = 0) = some s.length := by
    refine findIdx?_eq_some_iff_getElem.mpr ⟨by simp, by simp, fun j hj => ?_⟩
    rw [getElem_append_left hj, decide_eq_true_eq]
    exact fun hzero => h (hzero ▸ getElem_mem hj)
  rw [readCString, hidx]
  dsimp only
  rw [sliceBytes_left (by simp), sliceBytes_right (by simp), take_left, append_cons,
    drop_left' (by rw [List.length_append, length_singleton])]
  rfl

theorem readCString_eq_ok {err : DescriptorError} {b s rest : List UInt8} :
    readCString err b = .ok (s, rest) ↔ 0 ∉ s ∧ b = s ++ 0 :: rest := by
  constructor
  · intro h
    unfold readCString at h
    split at h
    · cases h
    · next idx hidx =>
      obtain ⟨hlt, hzero, hbefore⟩ := findIdx?_eq_some_iff_getElem.mp hidx
      rw [sliceBytes_left hlt.le, sliceBytes_right hlt] at h
      cases h
      refine ⟨fun hmem => ?_, ?_⟩
      · obtain ⟨j, hj, hget⟩ := mem_take_iff_getElem.mp hmem
        exact hbefore j (by omega) (decide_eq_true hget)
      · rw [← of_decide_eq_true hzero, getElem_cons_drop, take_append_drop]
  · rintro ⟨h, rfl⟩
    exact readCString_append err h rest

theorem readCString_returns (b : List UInt8) : (readCString err b).Returns := by
  unfold readCString
  split
  · trivial
  · next idx hidx =>
    obtain ⟨hlt, -⟩ := findIdx?_eq_some_iff_findIdx_eq.mp hidx
    rw [sliceBytes_left hlt.le, sliceBytes_right hlt]
    trivial

def addrAt (order : ByteOrder) (addrSize : Nat) (desc : List UInt8) (i : Nat) : UInt64 :=
  .ofNat (numAt order desc (i * addrSize) addrSize)

theorem readAddr_eq (hsize : addrSize = 4 ∨ addrSize = 8) {b : List UInt8} (h : b.length = addrSize) :
    (readAddr order addrSize b : Outcome ε UInt64) = .ok (.ofNat (order.value b)) := by
  have hwidth : (if addrSize = 4 then 4 else 8) = addrSize := by
    split
    · next h => exact h.symm
    · next h => exact (hsize.resolve_left h).symm
  rw [readAddr, hwidth, ByteOrder.uint_eq order h.ge, take_of_length_le h.le]
  rfl

theorem parseStapsdtDescriptor_eq (hsize : addrSize = 4 ∨ addrSize = 8) (h : addrSize * 3 ≤ desc.length) :
    parseStapsdtDescriptor desc order addrSize = do
      let (provider, rest) ← readCString .provider (desc.drop (3 * addrSize))
      let (name, rest) ← readCString .name rest
      let (args, _) ← readCString .args rest
      return ⟨addrAt order addrSize desc 0, addrAt order addrSize desc 1, addrAt order addrSize desc 2, provider,
        name, args⟩ := by
  have hbound (i : Nat) (hi : i < 3) : i * addrSize + addrSize ≤ desc.length := by
    rw [← Nat.succ_mul]
    exact (Nat.mul_le_mul_right addrSize hi).trans (Nat.mul_comm _ _ ▸ h)
  have hslice {ε : Type} (i j : Nat) (hj : i + 1 = j) (hi : i < 3) :
      (sliceBytes desc (i * addrSize) (j * addrSize) : Outcome ε _) =
        .ok ((desc.drop (i * addrSize)).take addrSize) := by
    rw [← hj, Nat.succ_mul, sliceBytes_eq (Nat.le_add_right _ _) (hbound i hi), Nat.add_sub_cancel_left]
  have hread {ε : Type} (i : Nat) (hi : i < 3) :
      (readAddr order addrSize ((desc.drop (i * addrSize)).take addrSize) : Outcome ε _) =
        .ok (addrAt order addrSize desc i) := readAddr_eq hsize (length_drop_take (hbound i hi))
  rw [parseStapsdtDescriptor, if_neg (Nat.not_lt.mpr h), hslice 0 1 rfl (by decide), hslice 1 2 rfl (by decide),
    hslice 2 3 rfl (by decide)]
  dsimp only [Bind.bind]
  rw [hread 0 (by decide), hread 1 (by decide), hread 2 (by decide), sliceBytes_right (by rwa [Nat.mul_comm])]

theorem parseStapsdtDescriptor_returns (hsize : addrSize = 4 ∨ addrSize = 8) (desc : List UInt8) :
    (parseStapsdtDescriptor desc order addrSize).Returns := by
  by_cases h : addrSize * 3 ≤ desc.length
  · rw [parseStapsdtDescriptor_eq hsize h]
    exact (readCString_returns _ _).bind fun _ _ => (readCString_returns _ _).bind fun _ _ =>
      (readCString_returns _ _).bind fun _ _ => trivial
  · rw [parseStapsdtDescriptor, if_pos (Nat.not_le.mp h)]
    trivial

theorem bytes_addrAt (hsize : addrSize = 4 ∨ addrSize = 8) {desc : List UInt8} {i : Nat}
    (h : i * addrSize + addrSize ≤ desc.length) :
    (addrAt order addrSize desc i).toNat < 256 ^ addrSize ∧ desc.drop (i * addrSize) =
        order.bytes addrSize (addrAt order addrSize desc i).toNat ++ desc.drop ((i + 1) * addrSize) := by
  have hlt := @numAt_lt order _ _ _ h
  have hwidth : 256 ^ addrSize ≤ 2 ^ 64 := by
    obtain rfl | rfl := hsize
    · decide
    · decide
  rw [addrAt, UInt64.toNat_ofNat_of_lt' (hlt.trans_le hwidth), Nat.succ_mul]
  exact ⟨hlt, drop_eq_bytes h⟩

theorem addrAt_zero {n : UInt64} (h : n.toNat < 256 ^ addrSize) (rest : List UInt8) :
    addrAt order addrSize (order.bytes addrSize n.toNat ++ rest) 0 = n := by
  rw [addrAt, Nat.zero_mul, numAt_bytes h, UInt64.ofNat_toNat]

theorem addrAt_succ (v : Nat) (rest : List UInt8) (i : Nat) :
    addrAt order addrSize (order.bytes addrSize v ++ rest) (i + 1) = addrAt order addrSize rest i := by
  rw [addrAt, Nat.succ_mul, Nat.add_comm, numAt_append (order.length_bytes addrSize v)]
  rfl

theorem drop_addr (v : Nat) (rest : List UInt8) (i : Nat) :
    (order.bytes addrSize v ++ rest).drop ((i + 1) * addrSize) = rest.drop (i * addrSize) := by
  rw [Nat.succ_mul, Nat.add_comm, ← drop_drop, drop_left' (order.length_bytes addrSize v)]

theorem parseStapsdtDescriptor_eq_ok (hsize : addrSize = 4 ∨ addrSize = 8) {d : StapsdtDescriptor} :
    parseStapsdtDescriptor desc order addrSize = .ok d ↔
      d.Encodable addrSize ∧ ∃ rest, desc = d.encode order addrSize ++ rest := by
  constructor
  · intro hok
    by_cases h : addrSize * 3 ≤ desc.length
    · rw [parseStapsdtDescriptor_eq hsize h] at hok
      obtain ⟨⟨provider, tail⟩, hprovider, hok⟩ := Outcome.bind_eq_ok.mp hok
      obtain ⟨⟨name, tail'⟩, hname, hok⟩ := Outcome.bind_eq_ok.mp hok
      obtain ⟨⟨args, tail''⟩, hargs, hok⟩ := Outcome.bind_eq_ok.mp hok
      cases hok
      obtain ⟨hprovider, htail⟩ := readCString_eq_ok.mp hprovider
      obtain ⟨hname, htail'⟩ := readCString_eq_ok.mp hname
      obtain ⟨hargs, htail''⟩ := readCString_eq_ok.mp hargs
      obtain ⟨hlocation, hdrop⟩ := @bytes_addrAt order _ hsize desc 0 (by omega)
      obtain ⟨hbase, hdrop'⟩ := @bytes_addrAt order _ hsize desc 1 (by omega)
      obtain ⟨hsemaphore, hdrop''⟩ := @bytes_addrAt order _ hsize desc 2 (by omega)
      refine ⟨⟨hlocation, hbase, hsemaphore, hprovider, hname, hargs⟩, tail'', ?_⟩
      rw [StapsdtDescriptor.encode]
      simp only [append_assoc, cons_append, nil_append]
      rw [← htail'', ← htail', ← htail, ← hdrop'', ← hdrop', ← hdrop, Nat.zero_mul, drop_zero]
    · rw [parseStapsdtDescriptor, if_pos (Nat.not_le.mp h)] at hok
      cases hok
  · rintro ⟨hd, rest, rfl⟩
    have hlen : addrSize * 3 ≤ (d.encode order addrSize ++ rest).length := by
      simp only [StapsdtDescriptor.encode, List.length_append, ByteOrder.length_bytes]
      omega
    rw [parseStapsdtDescriptor_eq hsize hlen, StapsdtDescriptor.encode]
    simp only [append_assoc, cons_append, nil_append]
    rw [addrAt_zero hd.location, addrAt_succ _ _ 0, addrAt_zero hd.base, addrAt_succ _ _ 1, addrAt_succ _ _ 0,
      addrAt_zero hd.semaphore, drop_addr _ _ 2, drop_addr _ _ 1, drop_addr _ _ 0, Nat.zero_mul, drop_zero,
      readCString_append _ hd.provider]
    dsimp only [Bind.bind]
    rw [readCString_append _ hd.name]
    dsimp only
    rw [readCString_append _ hd.args]
    rfl

end Descriptors

/-! ## Where an address is in the file -/

structure Prog.Covers (p : Prog) (addr : UInt64) : Prop where
  typ : p.typ = ptLoad
  vaddr_le : p.vaddr.toNat ≤ addr.toNat
  lt_memsz : addr.toNat < p.vaddr.toNat + p.memsz.toNat

/-- The byte that is loaded at the address is the one at that offset of the file. -/
structure Prog.Loads (p : Prog) (addr offset : UInt64) : Prop extends p.Covers addr where
  lt_filesz : addr.toNat < p.vaddr.toNat + p.filesz.toNat
  offset_eq : offset.toNat = p.off.toNat + (addr.toNat - p.vaddr.toNat)

def DisjointRanges (progs : List Prog) : Prop :=
  progs.Pairwise fun p q => ∀ addr, p.Covers addr → ¬q.Covers addr

section Addresses

variable {p : Prog} {progs : List Prog} {addr : UInt64}

theorem toNat_sub_vaddr (h : p.vaddr.toNat ≤ addr.toNat) :
    (addr - p.vaddr).toNat = addr.toNat - p.vaddr.toNat := UInt64.toNat_sub_of_le _ _ (UInt64.le_iff_toNat_le.mpr h)

theorem vaddrToFileOffset_of_not_covers (h : ¬p.Covers addr) :
    vaddrToFileOffset (p :: progs) addr = vaddrToFileOffset progs addr := by
  rw [vaddrToFileOffset]
  split
  · rfl
  · next htyp =>
    split
    · rfl
    · next hle =>
      have hle := UInt64.le_iff_toNat_le.mp (UInt64.not_lt.mp hle)
      refine if_pos (UInt64.le_iff_toNat_le.mpr ?_)
      rw [toNat_sub_vaddr hle]
      by_contra hlt
      exact h ⟨not_not.mp htyp, hle, by omega⟩

theorem vaddrToFileOffset_of_covers (h : p.Covers addr) : vaddrToFileOffset (p :: progs) addr =
      if p.filesz ≤ addr - p.vaddr then .error .inBSS else .ok (p.off + (addr - p.vaddr)) := by
  have hsub := toNat_sub_vaddr h.vaddr_le
  rw [vaddrToFileOffset, if_neg (not_not.mpr h.typ),
    if_neg (UInt64.not_lt.mpr (UInt64.le_iff_toNat_le.mpr h.vaddr_le)), if_neg (UInt64.not_le.mpr ?_)]
  rw [UInt64.lt_iff_toNat_lt, hsub]
  have := h.vaddr_le
  have := h.lt_memsz
  omega

theorem eq_ok_iff_loads (h : p.Covers addr) {offset : UInt64} :
    vaddrToFileOffset (p :: progs) addr = .ok offset ↔ p.Loads addr offset := by
  have hsub := toNat_sub_vaddr h.vaddr_le
  have hle := h.vaddr_le
  rw [vaddrToFileOffset_of_covers h]
  split
  · next hbss =>
    rw [UInt64.le_iff_toNat_le, hsub] at hbss
    refine ⟨nofun, fun hloads => ?_⟩
    have := hloads.lt_filesz
    omega
  · next hfile =>
    rw [UInt64.le_iff_toNat_le, hsub] at hfile
    have hoff := p.off_lt
    have hfilesz := p.filesz_lt
    have hadd : (p.off + (addr - p.vaddr)).toNat = p.off.toNat + (addr.toNat - p.vaddr.toNat) := by
      rw [UInt64.toNat_add, hsub, Nat.mod_eq_of_lt (by omega)]
    constructor
    · rintro ⟨⟩
      exact ⟨h, by omega, hadd⟩
    · intro hloads
      rw [UInt64.toNat_inj.mp (hadd.trans hloads.offset_eq.symm)]

theorem vaddrToFileOffset_eq_ok (h : DisjointRanges progs) {offset : UInt64} :
    vaddrToFileOffset progs addr = .ok offset ↔ ∃ p ∈ progs, p.Loads addr offset := by
  induction progs with
  | nil => exact ⟨nofun, nofun⟩
  | cons p progs ih =>
    obtain ⟨hp, hprogs⟩ := pairwise_cons.mp h
    rw [exists_mem_cons_iff]
    by_cases hcovers : p.Covers addr
    · rw [eq_ok_iff_loads hcovers, iff_self_or]
      rintro ⟨q, hq, hloads⟩
      exact absurd hloads.toCovers (hp q hq addr hcovers)
    · rw [vaddrToFileOffset_of_not_covers hcovers, ih hprogs, iff_or_self]
      exact fun hloads => absurd hloads.toCovers hcovers

end Addresses

/-! ## The results of `Parse` -/

def AllOrError (x : Outcome Empty (List Probe × Option ParseError)) : Prop :=
  ∃ probes err, x = .ok (probes, err) ∧ (err.isSome → probes = [])

theorem AllOrError.error (err : ParseError) : AllOrError (.ok ([], some err)) := ⟨_, _, rfl, fun _ => rfl⟩

theorem eq_four_or_eight {cls : ElfClass} {addrSize : Nat} (h : addrSizeForClass cls = .ok addrSize) :
    addrSize = 4 ∨ addrSize = 8 := by
  cases cls with
  | class32 =>
    cases h
    exact .inl rfl
  | class64 =>
    cases h
    exact .inr rfl
  | other n => cases h

theorem allOrError_parseProbes {addrSize : Nat} (hsize : addrSize = 4 ∨ addrSize = 8) (notes : List RawNote)
    (probes : List Probe) : AllOrError (parseProbes ef addrSize notes probes) := by
  induction notes generalizing probes with
  | nil => exact ⟨_, _, rfl, nofun⟩
  | cons n notes ih =>
    have hdesc := @parseStapsdtDescriptor_returns ef.byteOrder _ hsize n.desc
    rw [parseProbes]
    split
    · exact ih probes
    · split
      · exact .error _
      · next hpanic => exact (hpanic ▸ hdesc).elim
      · next hfuel => exact (hfuel ▸ hdesc).elim
      · dsimp only
        split
        · exact .error _
        · split
          · split
            · exact .error _
            · exact ih _
          · exact ih _

theorem allOrError_parse (file : Except String ElfFile) : AllOrError (parse file) := by
  unfold parse
  split
  · exact .error _
  · next ef =>
    split
    · exact ⟨_, _, rfl, nofun⟩
    · next sec hsec =>
      split
      · exact .error _
      · next data hdata =>
        have hnotes := @parseNotes_returns ef.byteOrder data
        split
        · exact .error _
        · next addrSize hclass =>
          split
          · exact .error _
          · next hpanic => exact (hpanic ▸ hnotes).elim
          · next hfuel => exact (hfuel ▸ hnotes).elim
          · exact allOrError_parseProbes ef (eq_four_or_eight hclass) _ _

/-- The notes and the descriptor that are read are the ones that were written, an address is found
where its byte is in the file, and all the probes come back or none does. -/
theorem reads_exactly (order : ByteOrder) :
    (∀ data notes, (parseNotes data order).Returns ∧ (parseNotes data order = .ok notes ↔ Records order data notes)) ∧
      (∀ notes : List (RawNote × Nat), (∀ p ∈ notes, p.1.Encodable p.2) →
        parseNotes (encodeNotes order notes) order = .ok (notes.map Prod.fst)) ∧
      (∀ addrSize, addrSize = 4 ∨ addrSize = 8 → ∀ desc d, (parseStapsdtDescriptor desc order addrSize).Returns ∧
        (parseStapsdtDescriptor desc order addrSize = .ok d ↔
          d.Encodable addrSize ∧ ∃ rest, desc = d.encode order addrSize ++ rest)) ∧
      (∀ progs addr offset, DisjointRanges progs →
        (vaddrToFileOffset progs addr = .ok offset ↔ ∃ p ∈ progs, p.Loads addr offset)) ∧
      ∀ file, AllOrError (parse file) := by
  refine ⟨fun data notes => ⟨parseNotes_returns data, parseNotes_eq_ok⟩, fun notes h => parseNotes_encodeNotes order h,
    fun addrSize h desc d => ⟨parseStapsdtDescriptor_returns h desc, parseStapsdtDescriptor_eq_ok h⟩,
    fun progs addr offset h => vaddrToFileOffset_eq_ok h, allOrError_parse⟩

/-- A note whose owner has one NUL after it, a descriptor of four-byte addresses, and the second
byte of a segment. -/
theorem reads_exactly_of_one : parseNotes (encodeNotes .bigEndian [(⟨ascii "stapsdt", 3, [7, 0, 9]⟩, 1)]) .bigEndian =
        .ok [⟨ascii "stapsdt", 3, [7, 0, 9]⟩] ∧
      parseStapsdtDescriptor (StapsdtDescriptor.encode .bigEndian 4 ⟨0x401000, 0, 5, [112], [110], []⟩ ++ [0]) .bigEndian 4 =
        .ok ⟨0x401000, 0, 5, [112], [110], []⟩ ∧
      vaddrToFileOffset [⟨ptLoad, 64, 0x400000, 2, 4, by decide, by decide⟩] 0x400001 = .ok 65 := by
  obtain ⟨-, hnotes, hdesc, haddr, -⟩ := reads_exactly .bigEndian
  refine ⟨hnotes _ fun p hp => ?_, (hdesc 4 (.inl rfl) _ _).2.mpr ⟨?_, [0], rfl⟩,
    (haddr _ _ _ (pairwise_singleton _ _)).mpr ⟨_, mem_singleton_self _, ?_⟩⟩
  · rw [mem_singleton.mp hp]
    exact ⟨by decide, by decide, by decide⟩
  · exact ⟨by decide, by decide, by decide, by decide, by decide, by decide⟩
  · exact { typ := rfl, vaddr_le := by decide, lt_memsz := by decide, lt_filesz := by decide, offset_eq := by decide }

end PerfAgent.Usdt
