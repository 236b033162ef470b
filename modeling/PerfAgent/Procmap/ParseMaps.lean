import PerfAgent.Lib.Text
import PerfAgent.Procmap.Resolver

/-!
# The parser of `/proc/<pid>/maps`

`parseMapsFile` of `unwind/procmap/parse.go` against the lines that the kernel prints: which of the
mappings come back, and what `Lookup` then finds.

The path of a mapping is the rest of its line, whatever characters it has, while the parser takes the
sixth word of the line for it.
-/

namespace PerfAgent.Procmap

open Text List

/-! ## The parser -/

inductive LineError where
  | tooFewFields (count : Nat)
  | noDash (range : List UInt8)
  | start (err : NumError)
  | limit (err : NumError)
  | offset (err : NumError)
deriving DecidableEq

inductive FileError where
  | parse (line : List UInt8) (err : LineError)
  | tooLong
deriving DecidableEq

/-- `parseMapsLine`, without the path under `map_files`. -/
def parseMapsLine (line : List UInt8) : Except LineError (Option Mapping) :=
  match fields line with
  | range :: perms :: offset :: _dev :: _inode :: rest =>
    if perms[2]? ≠ some 'x'.toUInt8 then .ok none
    else
      let path := rest.head?.getD []
      if path = [] ∨ path.head? = some '['.toUInt8 then .ok none
      else
        match range.findIdx? (· = '-'.toUInt8) with
        | none => .error (.noDash range)
        | some dash => do
            let start ← (parseHex (range.take dash)).mapError .start
            let limit ← (parseHex (range.drop (dash + 1))).mapError .limit
            let off ← (parseHex offset).mapError .offset
            return some { path, start, limit, offset := off }
  | fields => .error (.tooFewFields fields.length)

def parseMapsLines : List (List UInt8) → Except FileError (List Mapping)
  | [] => .ok []
  | line :: lines =>
    match parseMapsLine line with
    | .error err => .error (.parse line err)
    | .ok m => (parseMapsLines lines).map (m.toList ++ ·)

/-- `bufio.MaxScanTokenSize`. -/
def maxScanTokenSize : Nat := 64 * 1024

/-- `parseMapsFile`, once the file is open. -/
def parseMapsFile (data : List UInt8) : Except FileError (List Mapping) :=
  let s := scanLines maxScanTokenSize data
  match parseMapsLines s.1 with
  | .error err => .error err
  | .ok out => if s.2 then .error .tooLong else .ok (out.insertionSort fun a b => a.start ≤ b.start)

/-! ## The resolver -/

/-- `populate`: each mapping gets the build id that is read for it. -/
def populate (buildIDOf : Mapping → List UInt8) (read : Except FileError (List Mapping)) :
    Except FileError (List Mapping) :=
  read.map fun mappings => mappings.map fun m => { m with buildID := buildIDOf m }

/-- `Lookup`, in the entry of a process. -/
def lookup (entry : Except FileError (List Mapping)) (addr : UInt64) : Option Mapping :=
  match entry with
  | .error _ => none
  | .ok mappings =>
    let idx := sortSearch mappings.length fun i => mappings[i]?.any fun m => addr < m.start
    if idx = 0 then none
    else
      match mappings[idx - 1]? with
      | none => none
      | some m => if m.limit ≤ addr then none else some m

/-! ## What the kernel prints -/

/-- What is behind a mapping, as it is named: nothing, one of the names in brackets, or a file. -/
inductive Backing where
  | anonymous
  | special (label : List UInt8)
  | file (path : List UInt8) (deleted : Bool)
deriving DecidableEq

/-- `" (deleted)"`. -/
def deletedMarker : List UInt8 := [0x20, 0x28, 0x64, 0x65, 0x6c, 0x65, 0x74, 0x65, 0x64, 0x29]

def Backing.text : Backing → List UInt8
  | .anonymous => []
  | .special label => '['.toUInt8 :: label ++ [']'.toUInt8]
  | .file path deleted => path ++ if deleted then deletedMarker else []

structure Vma where
  start : UInt64
  limit : UInt64
  offset : UInt64
  read : Bool
  write : Bool
  exec : Bool
  shared : Bool
  major : UInt32
  minor : UInt32
  inode : UInt64
  backing : Backing
  start_lt : start < limit
  oneLine : 10 ∉ backing.text

namespace Vma

variable (v : Vma)

def perms : List UInt8 :=
  [if v.read then 'r'.toUInt8 else '-'.toUInt8, if v.write then 'w'.toUInt8 else '-'.toUInt8,
    if v.exec then 'x'.toUInt8 else '-'.toUInt8, if v.shared then 's'.toUInt8 else 'p'.toUInt8]

def range : List UInt8 := padded 16 8 v.start.toNat ++ '-'.toUInt8 :: padded 16 8 v.limit.toNat

def dev : List UInt8 := padded 16 2 v.major.toNat ++ ':'.toUInt8 :: padded 16 2 v.minor.toNat

def columns : List (List UInt8) :=
  [v.range, v.perms, padded 16 8 v.offset.toNat, v.dev, padded 10 1 v.inode.toNat]

def header : List UInt8 := v.columns.flatMap fun c => c ++ [0x20]

/-- The line of a mapping; its name, if it has one, is in column 73 or after it. -/
def line : List UInt8 :=
  v.header ++
    if v.backing.text = [] then []
    else List.replicate (72 - v.header.length) 0x20 ++ 0x20 :: v.backing.text

def mapping : Option Mapping :=
  match v.backing with
  | .anonymous | .special _ => none
  | .file path _ =>
    if v.exec then some { path, start := v.start, limit := v.limit, offset := v.offset } else none

end Vma

structure KernelMaps where
  vmas : List Vma
  disjoint : vmas.Pairwise fun a b => a.limit ≤ b.start ∨ b.limit ≤ a.start

namespace KernelMaps

variable (k : KernelMaps)

def text : List UInt8 := unlines (k.vmas.map Vma.line)

def fileMappings : List Mapping := k.vmas.filterMap Vma.mapping

/-- The parser returns the executable mappings of files in the order of their addresses, and the
resolver finds the one that an address is in, with whatever build ids are read for them. -/
def ParsesExactly : Prop :=
  ∃ mappings, parseMapsFile k.text = .ok mappings ∧ mappings.Perm k.fileMappings ∧
    mappings.Pairwise (fun a b => a.start < b.start) ∧
    ∀ (buildIDOf : Mapping → List UInt8) (addr : UInt64) (found : Mapping),
      lookup (populate buildIDOf (parseMapsFile k.text)) addr = some found ↔
        ∃ m ∈ k.fileMappings, m.start ≤ addr ∧ addr < m.limit ∧ found = { m with buildID := buildIDOf m }

end KernelMaps

/-- The sixth word of a line is all of the path, and cannot be taken for one of the names in
brackets. -/
structure Legible (path : List UInt8) : Prop where
  ne_nil : path ≠ []
  head_ne : path.head? ≠ some '['.toUInt8
  spaceless : Spaceless whiteSpace path

/-- The paths of the executable mappings of files are legible, and every line fits into the buffer of
the scanner. -/
structure KernelMaps.AllLegible (k : KernelMaps) : Prop where
  fits : ∀ v ∈ k.vmas, v.line.length < maxScanTokenSize
  legible : ∀ v ∈ k.vmas, v.exec = true → ∀ path deleted, v.backing = .file path deleted → Legible path

variable {l : List UInt8}

/-! ## One line -/

section Line

theorem fields_columns {cols : List (List UInt8)} (h : ∀ c ∈ cols, c ≠ [] ∧ Graphic c) (l : List UInt8) :
    fields ((cols.flatMap fun c => c ++ [0x20]) ++ l) = cols ++ fields l := by
  induction cols with
  | nil => rfl
  | cons c cols ih =>
    obtain ⟨⟨hne, hc⟩, h⟩ := forall_mem_cons.mp h
    have hsplit : ((c :: cols).flatMap fun c => c ++ [0x20]) ++ l
        = c ++ 0x20 :: ((cols.flatMap fun c => c ++ [0x20]) ++ l) := by simp
    rw [hsplit, fields, blank_separates.fieldsBy_cons hc.spaceless hne]
    exact congrArg (c :: ·) (ih h)

theorem graphic_padded_hex (width v : Nat) : Graphic (padded 16 width v) :=
  graphic_digits (by decide) (by decide) _ _

theorem graphic_cons {b : UInt8} (hb : 0x20 < b ∧ b < 0x7f) (hl : Graphic l) : Graphic (b :: l) :=
  forall_mem_cons.mpr ⟨hb, hl⟩

variable {m : Mapping}

namespace Vma

variable (v : Vma)

theorem graphic_perms : Graphic v.perms := by
  intro b hb
  simp only [perms, mem_cons, not_mem_nil, or_false] at hb
  rcases hb with rfl | rfl | rfl | rfl <;> split <;> decide

theorem columns_graphic : ∀ c ∈ v.columns, c ≠ [] ∧ Graphic c := by
  intro c hc
  simp only [columns, mem_cons, not_mem_nil, or_false] at hc
  rcases hc with rfl | rfl | rfl | rfl | rfl
  · exact ⟨append_ne_nil_of_left_ne_nil (padded_ne_nil _ _ _) _,
      (graphic_padded_hex _ _).append (graphic_cons (by decide) (graphic_padded_hex _ _))⟩
  · exact ⟨cons_ne_nil _ _, v.graphic_perms⟩
  · exact ⟨padded_ne_nil _ _ _, graphic_padded_hex _ _⟩
  · exact ⟨append_ne_nil_of_left_ne_nil (padded_ne_nil _ _ _) _,
      (graphic_padded_hex _ _).append (graphic_cons (by decide) (graphic_padded_hex _ _))⟩
  · exact ⟨padded_ne_nil _ _ _, graphic_digits (by decide) (by decide) _ _⟩

theorem fields_line : fields v.line = v.columns ++ fields v.backing.text := by
  rw [line, header, fields_columns v.columns_graphic]
  congr 1
  split
  · next h => rw [h]
  · exact (blank_separates.fieldsBy_replicate _ _).trans (blank_separates.fieldsFrom_sep [] _)

theorem newline_notMem_line : 10 ∉ v.line := by
  have hheader : 10 ∉ v.header := by
    intro h
    obtain ⟨c, hc, h⟩ := mem_flatMap.mp h
    rcases mem_append.mp h with h | h
    · exact absurd ((v.columns_graphic c hc).2 10 h).1 (by decide)
    · exact absurd h (by decide)
  intro h
  rcases mem_append.mp h with h | h
  · exact hheader h
  · split at h
    · exact not_mem_nil h
    · rcases mem_append.mp h with h | h
      · exact absurd (eq_of_mem_replicate h) (by decide)
      · rcases mem_cons.mp h with h | h
        · exact absurd h (by decide)
        · exact v.oneLine h

/-- The first word of the name, which the parser takes for the path. -/
def word : List UInt8 := (fields v.backing.text).head?.getD []

def parsed : Option Mapping :=
  if v.exec = true ∧ v.word ≠ [] ∧ v.word.head? ≠ some '['.toUInt8 then
    some { path := v.word, start := v.start, limit := v.limit, offset := v.offset }
  else none

theorem perms_exec : v.perms[2]? = some 'x'.toUInt8 ↔ v.exec = true := by
  unfold perms
  cases v.exec with
  | false =>
    have hne : (some '-'.toUInt8 : Option UInt8) ≠ some 'x'.toUInt8 := by decide
    exact iff_of_false hne Bool.false_ne_true
  | true => exact iff_of_true rfl rfl

theorem findIdx_range : v.range.findIdx? (· = '-'.toUInt8) = some (padded 16 8 v.start.toNat).length := by
  have hdigits : ∀ d < 16, digit d ≠ '-'.toUInt8 := by decide
  have hno : (padded 16 8 v.start.toNat).findIdx? (· = '-'.toUInt8) = none := by
    rw [findIdx?_eq_none_iff]
    intro b hb
    obtain ⟨d, hd, rfl⟩ := mem_digits (by decide) hb
    exact decide_eq_false (hdigits d hd)
  rw [range, findIdx?_append, hno, findIdx?_cons, if_pos (decide_eq_true rfl), Option.none_or, Option.map_some,
    Nat.zero_add]

theorem parseMapsLine_line : parseMapsLine v.line = .ok v.parsed := by
  unfold parseMapsLine
  rw [fields_line]
  simp only [columns, cons_append, nil_append]
  rw [ite_not]
  change (if v.perms[2]? = some 'x'.toUInt8 then
    (if v.word = [] ∨ v.word.head? = some '['.toUInt8 then _ else _) else _) = Except.ok v.parsed
  unfold parsed
  by_cases hexec : v.exec = true
  · rw [if_pos (v.perms_exec.mpr hexec)]
    by_cases hword : v.word = [] ∨ v.word.head? = some '['.toUInt8
    · rw [if_pos hword, if_neg (by tauto)]
    · rw [if_neg hword, if_pos (by tauto), findIdx_range]
      have hstart : v.range.take (padded 16 8 v.start.toNat).length = padded 16 8 v.start.toNat := take_left
      have hlimit : v.range.drop ((padded 16 8 v.start.toNat).length + 1) = padded 16 8 v.limit.toNat := by
        rw [← drop_drop, range, drop_left]
        rfl
      dsimp only
      rw [hstart, hlimit, parseHex_padded, parseHex_padded, parseHex_padded]
      rfl
  · rw [if_neg (mt v.perms_exec.mp hexec), if_neg (by tauto)]

theorem parsed_of_bracket (h : v.backing.text = '['.toUInt8 :: l) : v.parsed = none := by
  have hfind : (whiteSpace.find? fun s => s.isPrefixOf ('['.toUInt8 :: l)) = none :=
    find_eq_none_of_head (by decide)
  obtain ⟨w, hw⟩ := @head_fieldsFrom_of_ne _ whiteSpace _ l ['['.toUInt8] (cons_ne_nil _ _)
  have hword : v.word = '['.toUInt8 :: w := by
    rw [word, h, fields, fieldsBy, fieldsFrom, hfind]
    dsimp only
    rw [nil_append, hw]
    rfl
  rw [parsed, if_neg (by simp [hword])]

/-- A line is parsed right exactly when the path of an executable mapping of a file is legible. -/
theorem parsed_eq_mapping_iff :
    v.parsed = v.mapping ↔ (v.exec = true → ∀ path deleted, v.backing = .file path deleted → Legible path) := by
  cases hb : v.backing with
  | anonymous =>
    have hword : v.word = [] := by rw [word, hb]; rfl
    rw [parsed, if_neg (by simp [hword]), mapping, hb]
    exact iff_of_true rfl fun _ _ _ => nofun
  | special label =>
    rw [v.parsed_of_bracket (by rw [hb]; rfl), mapping, hb]
    exact iff_of_true rfl fun _ _ _ => nofun
  | file path deleted =>
    rw [mapping, hb]
    dsimp only
    by_cases hexec : v.exec = true
    · rw [if_pos hexec]
      constructor
      · rintro hsame - path' deleted' hfile
        obtain ⟨rfl, rfl⟩ := Backing.file.inj hfile
        rw [parsed] at hsame
        split at hsame
        · next hparsed =>
            obtain ⟨-, hne, hhead⟩ := hparsed
            have hpath : v.word = path := congrArg Mapping.path (Option.some.inj hsame)
            rw [hpath] at hne hhead
            refine ⟨hne, hhead, ?_⟩
            have hmem : path ∈ fields v.backing.text := by
              rw [word] at hpath
              cases hf : (fields v.backing.text).head? with
              | none => rw [hf] at hpath; exact absurd hpath.symm hne
              | some w =>
                rw [hf] at hpath
                rw [← hpath]
                exact mem_of_head? hf
            exact spaceless_of_mem_fieldsBy hmem
        · exact absurd hsame (by simp)
      · intro h
        obtain ⟨hne, hhead, hspaceless⟩ := h hexec path deleted rfl
        have hrest : (if deleted then deletedMarker else []) = [] ∨
            (if deleted then deletedMarker else []).head? = some 0x20 := by
          cases deleted with
          | false => exact .inl rfl
          | true => exact .inr rfl
        have hword : v.word = path := by
          rw [word, hb]
          exact congrArg (Option.getD · []) (blank_separates.head_fieldsBy hspaceless hne hrest)
        rw [parsed, hword, if_pos ⟨hexec, hne, hhead⟩]
    · rw [parsed, if_neg (by tauto), if_neg hexec]
      exact iff_of_true rfl fun h => absurd h hexec

theorem mapping_bounds (h : v.mapping = some m) : m.start = v.start ∧ m.limit = v.limit ∧ v.exec = true := by
  unfold mapping at h
  split at h
  · exact absurd h nofun
  · exact absurd h nofun
  · split at h
    · next hexec =>
        obtain rfl := Option.some.inj h
        exact ⟨rfl, rfl, hexec⟩
    · exact absurd h nofun

theorem parsed_start (h : v.parsed = some m) : m.start = v.start := by
  unfold parsed at h
  split at h
  · obtain rfl := Option.some.inj h
    rfl
  · exact absurd h nofun

end Vma

end Line

/-! ## The whole file -/

section File

theorem parseMapsLines_lines (vmas : List Vma) :
    parseMapsLines (vmas.map fun v => dropCR v.line) = .ok (vmas.filterMap Vma.parsed) := by
  induction vmas with
  | nil => rfl
  | cons v vmas ih =>
    have hline : parseMapsLine (dropCR v.line) = .ok v.parsed := by
      rw [← v.parseMapsLine_line, parseMapsLine, fields_dropCR, parseMapsLine]
    rw [map_cons, parseMapsLines, hline, ih, filterMap_cons]
    cases v.parsed with
    | none => rfl
    | some m => rfl

theorem pairwise_start_lt {mappings : List Mapping} (hnodup : (mappings.map Mapping.start).Nodup) :
    (mappings.insertionSort fun a b => a.start ≤ b.start).Pairwise fun a b => a.start < b.start := by
  have hle := pairwise_insertionSort (fun a b : Mapping => a.start ≤ b.start) mappings
  have hperm := (perm_insertionSort (fun a b : Mapping => a.start ≤ b.start) mappings).map Mapping.start
  have hne := pairwise_map.mp (hperm.nodup_iff.mpr hnodup)
  exact hle.imp₂ (fun _ _ h hne => UInt64.lt_of_le_of_ne h hne) hne

namespace KernelMaps

variable (k : KernelMaps)

theorem apart {v w : Vma} (hv : v ∈ k.vmas) (hw : w ∈ k.vmas) (hne : v ≠ w) :
    v.limit ≤ w.start ∨ w.limit ≤ v.start := by
  have hsymm : Std.Symm fun a b : Vma => a.limit ≤ b.start ∨ b.limit ≤ a.start := ⟨fun _ _ => Or.symm⟩
  exact k.disjoint.forall hv hw hne

theorem limit_le {v w : Vma} (hv : v ∈ k.vmas) (hw : w ∈ k.vmas) (hlt : v.start < w.start) : v.limit ≤ w.start := by
  have hne : v ≠ w := by
    rintro rfl
    exact UInt64.lt_irrefl _ hlt
  refine (k.apart hv hw hne).resolve_right fun hle => ?_
  exact UInt64.lt_irrefl _ (UInt64.lt_of_lt_of_le (UInt64.lt_trans hlt w.start_lt) hle)

theorem eq_of_start_eq {v w : Vma} (hv : v ∈ k.vmas) (hw : w ∈ k.vmas) (h : v.start = w.start) : v = w := by
  by_contra hne
  rcases k.apart hv hw hne with hle | hle
  · rw [← h] at hle
    exact UInt64.not_le.mpr v.start_lt hle
  · rw [h] at hle
    exact UInt64.not_le.mpr w.start_lt hle

theorem parseMapsFile_of_fits (h : ∀ v ∈ k.vmas, v.line.length < maxScanTokenSize) :
    parseMapsFile k.text = .ok ((k.vmas.filterMap Vma.parsed).insertionSort fun a b => a.start ≤ b.start) := by
  have hscan : scanLines maxScanTokenSize k.text = ((k.vmas.map Vma.line).map dropCR, false) := by
    refine scanLines_unlines fun line hline => ?_
    obtain ⟨v, hv, rfl⟩ := mem_map.mp hline
    exact ⟨v.newline_notMem_line, h v hv⟩
  rw [parseMapsFile, hscan, map_map]
  dsimp only
  rw [show (dropCR ∘ Vma.line) = fun v : Vma => dropCR v.line from rfl, parseMapsLines_lines]
  rfl

theorem fits_of_parseMapsFile {mappings : List Mapping} (h : parseMapsFile k.text = .ok mappings) :
    ∀ v ∈ k.vmas, v.line.length < maxScanTokenSize := by
  intro v hv
  by_contra hlong
  have hscan : (scanLines maxScanTokenSize k.text).2 = true := by
    refine scanLines_tooLong (by decide) (fun line hline => ?_) ⟨v.line, mem_map_of_mem hv, Nat.not_lt.mp hlong⟩
    obtain ⟨w, -, rfl⟩ := mem_map.mp hline
    exact w.newline_notMem_line
  unfold parseMapsFile at h
  simp only [hscan, if_true] at h
  split at h <;> exact absurd h nofun

/-- The executable mappings of files, in the order of their addresses, are what the resolver searches. -/
theorem bounds_of_perm {mappings : List Mapping} (hperm : mappings.Perm k.fileMappings)
    (hsorted : mappings.Pairwise fun a b => a.start < b.start) :
    (∀ m ∈ mappings, m.start < m.limit) ∧ mappings.Pairwise fun a b => a.limit ≤ b.start := by
  have hsource : ∀ m ∈ mappings, ∃ v ∈ k.vmas, m.start = v.start ∧ m.limit = v.limit := by
    intro m hm
    obtain ⟨v, hv, hmap⟩ := mem_filterMap.mp (hperm.mem_iff.mp hm)
    obtain ⟨hstart, hlimit, -⟩ := v.mapping_bounds hmap
    exact ⟨v, hv, hstart, hlimit⟩
  constructor
  · intro m hm
    obtain ⟨v, -, hstart, hlimit⟩ := hsource m hm
    rw [hstart, hlimit]
    exact v.start_lt
  · refine hsorted.imp_of_mem fun {a b} ha hb hlt => ?_
    obtain ⟨v, hv, hva, hla⟩ := hsource a ha
    obtain ⟨w, hw, hwb, -⟩ := hsource b hb
    rw [hva, hwb] at hlt
    rw [hla, hwb]
    exact k.limit_le hv hw hlt

theorem forall_parsed_eq_iff :
    (k.vmas.filterMap Vma.parsed).Perm k.fileMappings ↔ ∀ v ∈ k.vmas, v.parsed = v.mapping := by
  constructor
  · intro hperm v hv
    have hmap : ∀ m, v.mapping = some m → v.parsed = some m := by
      intro m hm
      obtain ⟨w, hw, hparsed⟩ := mem_filterMap.mp (hperm.mem_iff.mpr (mem_filterMap.mpr ⟨v, hv, hm⟩))
      have hstart : w.start = v.start := by rw [← w.parsed_start hparsed, (v.mapping_bounds hm).1]
      rw [← k.eq_of_start_eq hw hv hstart]
      exact hparsed
    have hparse : ∀ m, v.parsed = some m → v.mapping = some m := by
      intro m hm
      obtain ⟨w, hw, hmapping⟩ := mem_filterMap.mp (hperm.mem_iff.mp (mem_filterMap.mpr ⟨v, hv, hm⟩))
      have hstart : w.start = v.start := by rw [← (w.mapping_bounds hmapping).1, v.parsed_start hm]
      rw [← k.eq_of_start_eq hw hv hstart]
      exact hmapping
    exact Option.ext fun m => ⟨hparse m, hmap m⟩
  · intro h
    rw [fileMappings, filterMap_congr h]

theorem nodup_start_fileMappings : (k.fileMappings.map Mapping.start).Nodup := by
  rw [fileMappings, map_filterMap, List.Nodup, pairwise_filterMap]
  refine k.disjoint.imp fun {a b} happart s hs t ht => ?_
  obtain ⟨m, hm, rfl⟩ := Option.map_eq_some_iff.mp hs
  obtain ⟨n, hn, rfl⟩ := Option.map_eq_some_iff.mp ht
  rw [(a.mapping_bounds hm).1, (b.mapping_bounds hn).1]
  rcases happart with hle | hle
  · exact UInt64.ne_of_lt (UInt64.lt_of_lt_of_le a.start_lt hle)
  · exact (UInt64.ne_of_lt (UInt64.lt_of_lt_of_le b.start_lt hle)).symm

end KernelMaps

theorem lookup_populate (buildIDOf : Mapping → List UInt8) (mappings : List Mapping) (addr : UInt64) :
    lookup (populate buildIDOf (.ok mappings)) addr
      = (lookup (.ok mappings) addr).map fun m => { m with buildID := buildIDOf m } := by
  have hany : ∀ i : Nat, ((mappings.map fun m => { m with buildID := buildIDOf m })[i]?.any fun m : Mapping => addr < m.start)
      = mappings[i]?.any fun m : Mapping => addr < m.start := by
    intro i
    rw [getElem?_map]
    cases mappings[i]? with
    | none => rfl
    | some m => rfl
  change lookup (.ok (mappings.map _)) addr = _
  unfold lookup
  simp only [length_map, hany]
  generalize sortSearch mappings.length _ = idx
  by_cases hidx : idx = 0
  · rw [if_pos hidx, if_pos hidx]
    rfl
  · rw [if_neg hidx, if_neg hidx, getElem?_map]
    cases mappings[idx - 1]? with
    | none => rfl
    | some m =>
      dsimp only [Option.map_some]
      by_cases hlimit : m.limit ≤ addr
      · rw [if_pos hlimit, if_pos hlimit]
        rfl
      · rw [if_neg hlimit, if_neg hlimit]
        rfl

/-- In the ranges that do not overlap the search finds the mapping of an address, and no other. -/
theorem Maps.lookup_eq_some_iff (maps : Maps) (addr : UInt64) (m : Mapping) :
    maps.lookup addr = some m ↔ m ∈ maps.mappings ∧ m.start ≤ addr ∧ addr < m.limit := by
  have hmono : maps.mappings.Pairwise fun a b => decide (addr < a.start) = true → decide (addr < b.start) = true := by
    refine maps.sorted.imp_of_mem fun {a b} ha _ hle hlt => decide_eq_true ?_
    exact UInt64.lt_trans (of_decide_eq_true hlt) (UInt64.lt_of_lt_of_le (maps.start_lt a ha) hle)
  constructor
  · intro hlookup
    unfold Maps.lookup at hlookup
    rw [sortSearch_length hmono] at hlookup
    dsimp only at hlookup
    split at hlookup
    · exact absurd hlookup nofun
    · next hidx =>
        split at hlookup
        · exact absurd hlookup nofun
        · next found hget =>
            split at hlookup
            · exact absurd hlookup nofun
            · next hlimit =>
                obtain rfl := Option.some.inj hlookup
                rw [← getElem?_take_of_lt (Nat.sub_one_lt hidx), take_countP_not hmono] at hget
                obtain ⟨hmem, hbelow⟩ := mem_filter.mp (mem_of_getElem? hget)
                refine ⟨hmem, ?_, UInt64.not_le.mp hlimit⟩
                simpa using hbelow
  · rintro ⟨hm, hstart, hlimit⟩
    exact maps.lookup_eq_some hm hstart hlimit

theorem KernelMaps.lookup_of_perm (k : KernelMaps) {mappings : List Mapping} (hperm : mappings.Perm k.fileMappings)
    (hsorted : mappings.Pairwise fun a b => a.start < b.start) (buildIDOf : Mapping → List UInt8) (addr : UInt64)
    (found : Mapping) :
    lookup (populate buildIDOf (.ok mappings)) addr = some found ↔
      ∃ m ∈ k.fileMappings, m.start ≤ addr ∧ addr < m.limit ∧ found = { m with buildID := buildIDOf m } := by
  obtain ⟨hstart, hdisjoint⟩ := k.bounds_of_perm hperm hsorted
  rw [lookup_populate, Option.map_eq_some_iff]
  refine exists_congr fun m => ?_
  change Maps.lookup ⟨mappings, hstart, hdisjoint⟩ addr = some m ∧ _ ↔ _
  rw [Maps.lookup_eq_some_iff, hperm.mem_iff]
  exact ⟨fun ⟨⟨hm, hlow, hhigh⟩, heq⟩ => ⟨hm, hlow, hhigh, heq.symm⟩,
    fun ⟨hm, hlow, hhigh, heq⟩ => ⟨⟨hm, hlow, hhigh⟩, heq.symm⟩⟩

/-- The mappings of a process are parsed exactly when the paths of its executable mappings of files are
legible and no line is too long. -/
theorem KernelMaps.parsesExactly_iff (k : KernelMaps) : k.ParsesExactly ↔ k.AllLegible := by
  constructor
  · rintro ⟨mappings, hok, hperm, -, -⟩
    have hfits := k.fits_of_parseMapsFile hok
    have hsort : _ = mappings := Except.ok.inj ((k.parseMapsFile_of_fits hfits).symm.trans hok)
    have hparsed := k.forall_parsed_eq_iff.mp ((perm_insertionSort _ _).symm.trans (hsort ▸ hperm))
    exact ⟨hfits, fun v hv => v.parsed_eq_mapping_iff.mp (hparsed v hv)⟩
  · rintro ⟨hfits, hlegible⟩
    have hparsed : k.vmas.filterMap Vma.parsed = k.fileMappings :=
      filterMap_congr fun v hv => v.parsed_eq_mapping_iff.mpr (hlegible v hv)
    have hok := k.parseMapsFile_of_fits hfits
    rw [hparsed] at hok
    have hperm := perm_insertionSort (fun a b : Mapping => a.start ≤ b.start) k.fileMappings
    have hsorted := pairwise_start_lt k.nodup_start_fileMappings
    refine ⟨_, hok, hperm, hsorted, fun buildIDOf addr found => ?_⟩
    rw [hok]
    exact k.lookup_of_perm hperm hsorted buildIDOf addr found

/-- `/opt/my lib.so`, mapped at `0x400000`. -/
def blankInPath : Vma where
  start := 0x400000
  limit := 0x401000
  offset := 0
  read := true
  write := false
  exec := true
  shared := false
  major := 8
  minor := 1
  inode := 4242
  backing := .file [0x2f, 0x6f, 0x70, 0x74, 0x2f, 0x6d, 0x79, 0x20, 0x6c, 0x69, 0x62, 0x2e, 0x73, 0x6f] false
  start_lt := by decide
  oneLine := by decide

/-- The path of that mapping comes back as `/opt/my`. -/
theorem KernelMaps.not_parsesExactly : ¬∀ k : KernelMaps, k.ParsesExactly := by
  intro h
  obtain ⟨mappings, hok, hperm, -, -⟩ := h ⟨[blankInPath], pairwise_singleton _ _⟩
  have hcut : parseMapsFile (KernelMaps.text ⟨[blankInPath], pairwise_singleton _ _⟩)
      = .ok [{ path := [0x2f, 0x6f, 0x70, 0x74, 0x2f, 0x6d, 0x79], start := 0x400000, limit := 0x401000, offset := 0 }] := by
    decide +kernel
  obtain rfl := Except.ok.inj (hcut.symm.trans hok)
  exact absurd (hperm.mem_iff.mp mem_cons_self) (by decide)

end File

end PerfAgent.Procmap
