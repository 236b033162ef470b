import PerfAgent.Bpf.Walker
import PerfAgent.Unwind.Tracker
import Mathlib.Tactic.Abel

/-!
# The mappings of a process

`LoadProcessMappings` of `unwind/ehmaps/elf_helpers.go`: the rows that it makes of the lines of
`/proc/<pid>/maps`, and when they translate the addresses of the process into those of the file.

The lines are as the kernel prints them, so their numbers parse and each of the ranges is an
interval.  What a line does not say, the segment of the opened file that is behind the mapping, is
in `Vma`; only the statements look at it.
-/

namespace PerfAgent.Unwind

open List

abbrev FilePath := List UInt8

/-- What follows the last `/`. -/
def baseName (path : FilePath) : FilePath := (path.reverse.takeWhile (· ≠ 47)).reverse

/-! ## Pages -/

variable (x : UInt64)

/-- `x & pageMask`. -/
def pageDown : UInt64 := x &&& ~~~0xfff

def pageOffset : UInt64 := x &&& 0xfff

theorem pageDown_add_pageOffset : pageDown x + pageOffset x = x := by
  unfold pageDown pageOffset
  rw [← UInt64.toBitVec_inj]
  simp only [UInt64.toBitVec_add, UInt64.toBitVec_and, UInt64.toBitVec_not]
  rw [BitVec.add_eq_or_of_and_eq_zero]
  · ext i hi
    simp only [BitVec.getElem_or, BitVec.getElem_and, BitVec.getElem_not]
    cases x.toBitVec[i] <;> simp
  · ext i hi
    simp only [BitVec.getElem_and, BitVec.getElem_not, BitVec.getElem_zero]
    cases x.toBitVec[i] <;> simp

theorem pageDown_sub_pageDown {x y : UInt64} (h : pageOffset x = pageOffset y) : pageDown x - pageDown y = x - y := by
  calc pageDown x - pageDown y
      = (pageDown x + pageOffset y) - (pageDown y + pageOffset y) := (add_sub_add_right_eq_sub ..).symm
    _ = x - y := by rw [← h, pageDown_add_pageOffset, h, pageDown_add_pageOffset]

/-! ## The file and the lines -/

/-- A program header, with what is read of it.  The system maps whole pages, so a segment that it
loads is at the same place in a page of memory as in a page of the file. -/
structure ElfProg where
  load : Bool
  exec : Bool
  vaddr : UInt64
  off : UInt64
  congruent : load = true → pageOffset vaddr = pageOffset off
deriving DecidableEq

def execProg (progs : List ElfProg) : Option ElfProg := progs.find? fun p => p.load && p.exec

/-- A line of `/proc/<pid>/maps`; a path with blanks is in several words. -/
structure MapsLine where
  start : UInt64
  limit : UInt64
  exec : Bool
  offset : UInt64
  words : List FilePath
deriving DecidableEq

def MapsLine.matches (base : FilePath) (l : MapsLine) : Bool :=
  l.exec && match l.words with
    | [] => false
    | word :: _ => base.isSuffixOf word

/-! ## The loop -/

structure MapsScan where
  loadBias : Option UInt64
  ranges : List (UInt64 × UInt64)
  ranges_ne : loadBias ≠ none → ranges ≠ []

variable (prog : ElfProg)

def MapsScan.line (base : FilePath) (s : MapsScan) (l : MapsLine) : MapsScan :=
  if l.matches base then
    { loadBias :=
        if s.loadBias = none ∧ l.offset = pageDown prog.off then some (l.start - pageDown prog.vaddr)
        else s.loadBias
      ranges := s.ranges ++ [(l.start, l.limit)]
      ranges_ne := fun _ => concat_ne_nil _ _ }
  else s

inductive LoadError where
  | openELF
  | noExecutableSegment
  | readMaps
  | noMatchingEntry
deriving DecidableEq

/-- `LoadProcessMappings`, up to the table that goes into each row: the program headers of the
file, if it opens as an ELF, and the lines, if they can be read. -/
def loadProcessMappings (progs : Option (List ElfProg)) (lines : Option (List MapsLine))
    (binPath : FilePath) : Except LoadError Loaded :=
  match progs with
  | none => .error .openELF
  | some progs =>
    match execProg progs with
    | none => .error .noExecutableSegment
    | some prog =>
      match lines with
      | none => .error .readMaps
      | some lines =>
        let s := lines.foldl (MapsScan.line prog (baseName binPath)) ⟨none, [], nofun⟩
        if h : s.loadBias = none then .error .noMatchingEntry
        else .ok { loadBias := s.loadBias.getD 0, ranges := s.ranges, ranges_ne := s.ranges_ne h }

def matchedLines {α : Type} (line : α → MapsLine) (binPath : FilePath) (ls : List α) : List α :=
  ls.filter fun l => (line l).matches (baseName binPath)

theorem ranges_foldl_line (base : FilePath) (ls : List MapsLine) (s : MapsScan) :
    (ls.foldl (MapsScan.line prog base) s).ranges =
      s.ranges ++ (ls.filter (MapsLine.matches base)).map fun l => (l.start, l.limit) := by
  induction ls generalizing s with
  | nil => exact (append_nil _).symm
  | cons l ls ih =>
    rw [foldl_cons, ih, MapsScan.line]
    split
    · next h => rw [filter_cons_of_pos h, map_cons, append_assoc, singleton_append]
    · next h => rw [filter_cons_of_neg h]

theorem loadBias_foldl_line (base : FilePath) (ls : List MapsLine) (s : MapsScan) :
    (ls.foldl (MapsScan.line prog base) s).loadBias =
      s.loadBias.or (((ls.filter (MapsLine.matches base)).find? fun l => l.offset = pageDown prog.off).map
        fun l => l.start - pageDown prog.vaddr) := by
  induction ls generalizing s with
  | nil => exact (Option.or_none).symm
  | cons l ls ih =>
    rw [foldl_cons, ih, MapsScan.line]
    split
    · next h =>
      rw [filter_cons_of_pos h, find?_cons]
      dsimp only
      by_cases hoff : l.offset = pageDown prog.off
      · simp only [hoff, and_true, decide_true, Option.map_some]
        cases s.loadBias with
        | none => rfl
        | some b => rfl
      · simp only [hoff, and_false, if_false, decide_false]
    · next h => rw [filter_cons_of_neg h]

variable {binPath : FilePath} {l : Loaded}

theorem loadProcessMappings_eq_ok_iff {progs : List ElfProg} {lines : List MapsLine} :
    loadProcessMappings (some progs) (some lines) binPath = .ok l ↔ ∃ prog anchor, execProg progs = some prog ∧
        (matchedLines id binPath lines).find? (fun l => l.offset = pageDown prog.off) = some anchor ∧
        l.loadBias = anchor.start - pageDown prog.vaddr ∧
        l.ranges = (matchedLines id binPath lines).map fun l => (l.start, l.limit) := by
  unfold loadProcessMappings
  dsimp only
  cases execProg progs with
  | none => exact iff_of_false (fun h => by cases h) (fun ⟨_, _, h, _⟩ => by cases h)
  | some prog =>
    have hbias := loadBias_foldl_line prog (baseName binPath) lines ⟨none, [], nofun⟩
    have hranges := ranges_foldl_line prog (baseName binPath) lines ⟨none, [], nofun⟩
    dsimp only
    rw [Option.none_or] at hbias
    rw [nil_append] at hranges
    constructor
    · intro h
      split_ifs at h with hnone
      cases h
      obtain ⟨bias, hsome⟩ := Option.ne_none_iff_exists'.mp hnone
      obtain ⟨anchor, hfind, rfl⟩ := Option.map_eq_some_iff.mp (hbias.symm.trans hsome)
      refine ⟨prog, anchor, rfl, hfind, ?_, hranges⟩
      dsimp only
      rw [hsome, Option.getD_some]
    · rintro ⟨_, anchor, ⟨⟩, hfind, hl, hr⟩
      have hsome := hbias.trans (congrArg (Option.map _) hfind)
      rw [Option.map_some] at hsome
      have hnone : (lines.foldl (MapsScan.line prog (baseName binPath)) ⟨none, [], nofun⟩).loadBias ≠ none := by
        rw [hsome]
        exact Option.some_ne_none _
      rw [dif_neg hnone]
      obtain ⟨loadBias, ranges, hne⟩ := l
      congr 2
      · rw [hsome, Option.getD_some]
        exact hl.symm
      · exact hranges.trans hr.symm

/-! ## What is behind the mappings -/

def ElfProg.shift (p : ElfProg) : UInt64 := p.vaddr - p.off

/-- A mapping, with the segment of the opened file that is behind it. -/
structure Vma extends MapsLine where
  segment : Option ElfProg
deriving DecidableEq

/-- The image that a mapping of the segment belongs to starts here. -/
def Vma.imageBase (v : Vma) (p : ElfProg) : UInt64 := v.start - v.offset - p.shift

/-- The mappings of a process, of the file with these headers and of any others. -/
structure AddressSpace (progs : List ElfProg) where
  vmas : List Vma
  start_lt : ∀ v ∈ vmas, v.start < v.limit
  ordered : vmas.Pairwise fun v w => v.limit ≤ w.start
  aligned : ∀ v ∈ vmas, pageOffset v.start = 0 ∧ pageOffset v.offset = 0
  backed : ∀ v ∈ vmas, ∀ p ∈ v.segment, p ∈ progs ∧ p.load = true

namespace AddressSpace

variable {progs : List ElfProg} (space : AddressSpace progs)

/-- `/proc/<pid>/maps`. -/
def lines : List MapsLine := space.vmas.map Vma.toMapsLine

/-- The byte at `pc` is one of the opened file, which has it at address `a`. -/
def ElfAddress (pc a : UInt64) : Prop :=
  ∃ v ∈ space.vmas, v.start ≤ pc ∧ pc < v.limit ∧ ∃ p, v.segment = some p ∧ a = v.offset + (pc - v.start) + p.shift

/-- The rows that the call returns for `binPath` translate the addresses that they cover. -/
def Translated (binPath : FilePath) : Prop :=
  ∀ l tableID, loadProcessMappings (some progs) (some space.lines) binPath = .ok l →
    ∀ row ∈ l.mappings tableID, ∀ pc, row.vmaStart ≤ pc → pc < row.vmaEnd → space.ElfAddress pc (pc - row.loadBias)

def matched (binPath : FilePath) : List Vma := matchedLines Vma.toMapsLine binPath space.vmas

/-- The executable mappings whose path ends in the base name are all of one image of the opened
file, unless the call returns an error.  The first of them at the offset of the first executable
segment is taken for that segment: the one behind it has its bytes as far from where the file has
them. -/
def OneImage (binPath : FilePath) : Prop :=
  ∀ prog anchor, execProg progs = some prog →
    (space.matched binPath).find? (fun v => v.offset = pageDown prog.off) = some anchor →
      (∀ p ∈ anchor.segment, p.shift = prog.shift) ∧
        ∃ base, ∀ v ∈ space.matched binPath, ∃ p, v.segment = some p ∧ v.imageBase p = base

theorem start_sub_vaddr {prog : ElfProg} {vs : List Vma} {v : Vma} (hprog : execProg progs = some prog)
    (hv : vs.find? (fun v => v.offset = pageDown prog.off) = some v) :
    v.start - pageDown prog.vaddr = v.imageBase prog := by
  unfold execProg at hprog
  have hexec := find?_some hprog
  have hoff := find?_some hv
  have hload : prog.load = true := (Bool.and_eq_true_iff.mp hexec).1
  rw [Vma.imageBase, ElfProg.shift, ← pageDown_sub_pageDown (prog.congruent hload), of_decide_eq_true hoff, sub_sub,
    add_sub_cancel]

theorem vma_unique {v w : Vma} (hv : v ∈ space.vmas) (hw : w ∈ space.vmas) {pc : UInt64} (hvs : v.start ≤ pc)
    (hvl : pc < v.limit) (hws : w.start ≤ pc) (hwl : pc < w.limit) : v = w := by
  obtain ⟨i, hi, rfl⟩ := mem_iff_getElem.mp hv
  obtain ⟨j, hj, rfl⟩ := mem_iff_getElem.mp hw
  have horder := pairwise_iff_getElem.mp space.ordered
  rcases Nat.lt_trichotomy i j with hij | rfl | hji
  · exact absurd (UInt64.lt_of_lt_of_le hvl (UInt64.le_trans (horder i j hi hj hij) hws)) (UInt64.lt_irrefl _)
  · rfl
  · exact absurd (UInt64.lt_of_lt_of_le hwl (UInt64.le_trans (horder j i hj hi hji) hvs)) (UInt64.lt_irrefl _)

theorem matchedLines_lines (binPath : FilePath) :
    matchedLines id binPath space.lines = (space.matched binPath).map Vma.toMapsLine :=
  filter_map ..

/-- The call succeeds where a mapping is at the offset of the first executable segment, and puts
the start of that segment's image into every row. -/
theorem loadProcessMappings_lines_iff : loadProcessMappings (some progs) (some space.lines) binPath = .ok l ↔
      ∃ prog anchor, execProg progs = some prog ∧
        (space.matched binPath).find? (fun v => v.offset = pageDown prog.off) = some anchor ∧
        l.loadBias = anchor.imageBase prog ∧
        l.ranges = (space.matched binPath).map fun v => (v.start, v.limit) := by
  rw [loadProcessMappings_eq_ok_iff]
  refine exists_congr fun prog => ?_
  rw [matchedLines_lines, find?_map, map_map]
  constructor
  · rintro ⟨anchor, hprog, hfind, hbias, hranges⟩
    obtain ⟨v, hv, rfl⟩ := Option.map_eq_some_iff.mp hfind
    exact ⟨v, hprog, hv, hbias.trans (start_sub_vaddr hprog hv), hranges⟩
  · rintro ⟨v, hprog, hv, hbias, hranges⟩
    exact ⟨v.toMapsLine, hprog, Option.map_eq_some_iff.mpr ⟨v, hv, rfl⟩,
      hbias.trans (start_sub_vaddr hprog hv).symm, hranges⟩

theorem translates_iff {v : Vma} {p : ElfProg} {bias pc : UInt64} :
    pc - bias = v.offset + (pc - v.start) + p.shift ↔ v.imageBase p = bias := by
  unfold Vma.imageBase
  constructor
  · intro h
    rw [← sub_sub_cancel pc bias, h]
    abel
  · rintro rfl
    abel

theorem oneImage_of_translated (h : space.Translated binPath) : space.OneImage binPath := by
  intro prog anchor hprog hfind
  obtain ⟨l, hl⟩ : ∃ l : Loaded, l.loadBias = anchor.imageBase prog ∧
      l.ranges = (space.matched binPath).map fun v => (v.start, v.limit) :=
    ⟨⟨anchor.imageBase prog, _, ne_nil_of_mem (mem_map_of_mem (mem_of_find?_eq_some hfind))⟩,
      rfl, rfl⟩
  -- the first address of each mapping decides its image
  have hbase : ∀ v ∈ space.matched binPath, ∃ p, v.segment = some p ∧ v.imageBase p = anchor.imageBase prog := by
    intro v hv
    have hmem : v ∈ space.vmas := mem_of_mem_filter hv
    have hlt := space.start_lt v hmem
    have hrow : (⟨v.start, v.limit, l.loadBias, 0⟩ : PIDMapping) ∈ l.mappings 0 := by
      rw [Loaded.mappings, hl.2, map_map]
      exact mem_map.mpr ⟨v, hv, rfl⟩
    obtain ⟨w, hw, hws, hwl, p, hp, haddr⟩ := h l 0
      (space.loadProcessMappings_lines_iff.mpr ⟨prog, anchor, hprog, hfind, hl⟩) _ hrow v.start
      (UInt64.le_refl _) hlt
    obtain rfl := space.vma_unique hmem hw (UInt64.le_refl _) hlt hws hwl
    exact ⟨p, hp, (translates_iff.mp haddr).trans hl.1⟩
  refine ⟨fun p hp => ?_, _, hbase⟩
  obtain ⟨p', hp', heq⟩ := hbase anchor (mem_of_find?_eq_some hfind)
  obtain rfl := Option.some.inj (hp'.symm.trans hp)
  exact sub_right_inj.mp heq

theorem translated_of_oneImage (h : space.OneImage binPath) : space.Translated binPath := by
  intro l tableID hload row hrow pc hstart hend
  obtain ⟨prog, anchor, hprog, hfind, hbias, hranges⟩ := space.loadProcessMappings_lines_iff.mp hload
  obtain ⟨hshift, base, hone⟩ := h prog anchor hprog hfind
  rw [Loaded.mappings, hranges, map_map] at hrow
  obtain ⟨v, hv, rfl⟩ := mem_map.mp hrow
  obtain ⟨p, hp, hbase⟩ := hone v hv
  obtain ⟨p', hp', hbase'⟩ := hone anchor (mem_of_find?_eq_some hfind)
  refine ⟨v, mem_of_mem_filter hv, hstart, hend, p, hp, translates_iff.mpr ?_⟩
  rw [hbase, ← hbase', Vma.imageBase, hshift p' hp']
  exact hbias.symm

/-- The rows translate the addresses that they cover if and only if all of their mappings are of
one image of the opened file. -/
theorem translated_iff_oneImage (binPath : FilePath) : space.Translated binPath ↔ space.OneImage binPath :=
  ⟨space.oneImage_of_translated, space.translated_of_oneImage⟩

/-- Two libraries of one base name, `/a/x` and `/b/x`, of which the first is the opened file. -/
def sameBaseName : AddressSpace [⟨true, true, 0x2000, 0x1000, fun _ => rfl⟩] where
  vmas :=
    [{ start := 0x10000, limit := 0x11000, exec := true, offset := 0x1000, words := [[47, 97, 47, 120]]
       segment := some ⟨true, true, 0x2000, 0x1000, fun _ => rfl⟩ },
     { start := 0x20000, limit := 0x21000, exec := true, offset := 0x1000, words := [[47, 98, 47, 120]]
       segment := none }]
  start_lt := by decide
  ordered := by decide
  aligned := by decide
  backed := by decide

theorem not_translated : ¬ sameBaseName.Translated [47, 97, 47, 120] := by
  intro h
  obtain ⟨-, base, hone⟩ := sameBaseName.oneImage_of_translated h _ _ rfl rfl
  obtain ⟨p, hp, -⟩ := hone (sameBaseName.vmas[1]) (by decide)
  cases hp

end AddressSpace

/-! ## The walker's lookup -/

open Bpf (mappingScan mappingForPc)

end PerfAgent.Unwind
