import Mathlib.Data.List.Basic

/-!
# Where an artifact is kept

`pathFor` and `parsePath` of `symbolize/debuginfod/cache/cache.go`.  A path is the list of its
components below the cache's directory, and `joinPath` is `filepath.Join`, which cleans what it
joins: a build-id can move its file by holding a separator or by being made of dots.

`parsePath` is the inverse of `pathFor` for the artifacts that are `Plain`, and only for those.
-/

namespace PerfAgent.Debuginfod

open List

abbrev Name := List UInt8

abbrev Path := List Name

inductive Kind where
  | debuginfo
  | executable
deriving DecidableEq

structure Artifact where
  buildID : Name
  kind : Kind
deriving DecidableEq

def slash : UInt8 := 0x2F

/-- `..` -/
def dotDot : Name := [0x2E, 0x2E]

/-- `.build-id` -/
def buildIDDir : Name := [0x2E, 0x62, 0x75, 0x69, 0x6C, 0x64, 0x2D, 0x69, 0x64]

/-- `.debug` -/
def debugSuffix : Name := [0x2E, 0x64, 0x65, 0x62, 0x75, 0x67]

/-! ## Joining -/

/-- One component of a path that is cleaned; the last one comes first. -/
def cleanStep : Path → Name → Path
  | [], c => if c = [] ∨ c = [0x2E] then [] else [c]
  | a :: p, c =>
    if c = [] ∨ c = [0x2E] then a :: p
    else if c = dotDot then if a = dotDot then c :: a :: p else p
    else c :: a :: p

/-- `filepath.Join`, for elements of which the first is not empty and does not begin at the root. -/
def joinPath (elements : List Name) : Path :=
  ((elements.flatMap fun e => e.splitOn slash).foldl cleanStep []).reverse

def pathFor (a : Artifact) : Option Path :=
  if a.buildID.length < 4 then none
  else
    let rest := a.buildID.drop 2
    some (joinPath [buildIDDir, a.buildID.take 2,
      if a.kind = .debuginfo then rest ++ debugSuffix else rest])

def parsePath : Path → Option Artifact
  | [dir, pre, rest] =>
    if dir ≠ buildIDDir then none
    else if debugSuffix.isSuffixOf rest then
      some ⟨pre ++ rest.take (rest.length - debugSuffix.length), .debuginfo⟩
    else some ⟨pre ++ rest, .executable⟩
  | _ => none

/-! ## Plain artifacts -/

def Artifact.fileName (a : Artifact) : Name :=
  if a.kind = .debuginfo then a.buildID.drop 2 ++ debugSuffix else a.buildID.drop 2

/-- The build-id has no separator, its halves are not the parent directory, and the file of an
executable does not look like debuginfo. -/
structure Artifact.Plain (a : Artifact) : Prop where
  long : 4 ≤ a.buildID.length
  separator : slash ∉ a.buildID
  pre : a.buildID.take 2 ≠ dotDot
  executable : a.kind = .executable → a.buildID.drop 2 ≠ dotDot ∧ debugSuffix.isSuffixOf (a.buildID.drop 2) = false

instance (a : Artifact) : Decidable a.Plain :=
  decidable_of_iff (4 ≤ a.buildID.length ∧ slash ∉ a.buildID ∧ a.buildID.take 2 ≠ dotDot ∧ (a.kind = .executable →
        a.buildID.drop 2 ≠ dotDot ∧ debugSuffix.isSuffixOf (a.buildID.drop 2) = false))
    ⟨fun ⟨h₁, h₂, h₃, h₄⟩ => ⟨h₁, h₂, h₃, h₄⟩, fun h => ⟨h.long, h.separator, h.pre, h.executable⟩⟩

variable {a : Artifact}

theorem pathFor_eq (hlong : 4 ≤ a.buildID.length) (hsep : slash ∉ a.buildID) :
    pathFor a = some ([buildIDDir, a.buildID.take 2, a.fileName].foldl cleanStep []).reverse := by
  have hpre : slash ∉ a.buildID.take 2 := fun h => hsep (mem_of_mem_take h)
  have hrest : slash ∉ a.buildID.drop 2 := fun h => hsep (mem_of_mem_drop h)
  have hdebug : slash ∉ a.buildID.drop 2 ++ debugSuffix := by
    rw [mem_append, not_or]
    exact ⟨hrest, by decide⟩
  have hname : slash ∉ a.fileName := by
    unfold Artifact.fileName
    split
    · exact hdebug
    · exact hrest
  have hdir : slash ∉ buildIDDir := by decide
  unfold pathFor joinPath
  rw [if_neg (Nat.not_lt.mpr hlong)]
  change some ((List.flatMap _ [buildIDDir, a.buildID.take 2, a.fileName]).foldl cleanStep []).reverse = _
  simp only [flatMap_cons, flatMap_nil, splitOn_eq_singleton hdir, splitOn_eq_singleton hpre,
    splitOn_eq_singleton hname, append_nil, singleton_append]

theorem fileName_length (hlong : 4 ≤ a.buildID.length) : 2 ≤ a.fileName.length := by
  have hrest : 2 ≤ (a.buildID.drop 2).length := by rw [length_drop]; omega
  unfold Artifact.fileName
  split
  · rw [List.length_append]
    omega
  · exact hrest

theorem cleanStep_of_ne {b c : Name} {p : Path} (hlong : 2 ≤ c.length) (hne : c ≠ dotDot) :
    cleanStep (b :: p) c = c :: b :: p := by
  have hempty : ¬ (c = [] ∨ c = [0x2E]) := by
    rintro (rfl | rfl) <;> exact absurd hlong (by decide)
  simp only [cleanStep]
  rw [if_neg hempty, if_neg hne]

theorem take_two_length (hlong : 4 ≤ a.buildID.length) : 2 ≤ (a.buildID.take 2).length := by
  rw [length_take]
  omega

theorem foldl_cleanStep (hpre : a.buildID.take 2 ≠ dotDot) (hlong : 4 ≤ a.buildID.length) :
    [buildIDDir, a.buildID.take 2, a.fileName].foldl cleanStep [] =
      cleanStep [a.buildID.take 2, buildIDDir] a.fileName := by
  have hdir : cleanStep [] buildIDDir = [buildIDDir] := by decide
  rw [foldl_cons, foldl_cons, foldl_cons, foldl_nil, hdir, cleanStep_of_ne (take_two_length hlong) hpre]

theorem Artifact.Plain.fileName_ne (h : a.Plain) : a.fileName ≠ dotDot := by
  unfold fileName
  split
  · intro heq
    have hlength := congrArg List.length heq
    rw [List.length_append] at hlength
    exact absurd hlength (by change _ + 6 ≠ 2; omega)
  · next hkind =>
      refine (h.executable ?_).1
      cases hk : a.kind with
      | debuginfo => exact absurd hk hkind
      | executable => rfl

theorem Artifact.Plain.pathFor_eq (h : a.Plain) : pathFor a = some [buildIDDir, a.buildID.take 2, a.fileName] := by
  rw [Debuginfod.pathFor_eq h.long h.separator, foldl_cleanStep h.pre h.long,
    cleanStep_of_ne (fileName_length h.long) h.fileName_ne]
  rfl

theorem Artifact.Plain.parsePath_fileName (h : a.Plain) :
    parsePath [buildIDDir, a.buildID.take 2, a.fileName] = some a := by
  obtain ⟨id, kind⟩ := a
  simp only [Debuginfod.parsePath]
  rw [if_neg (not_not_intro rfl)]
  cases kind with
  | debuginfo =>
    have hname : (Artifact.mk id .debuginfo).fileName = id.drop 2 ++ debugSuffix := rfl
    have htake : ∀ l : Name, (l ++ debugSuffix).take ((l ++ debugSuffix).length - debugSuffix.length) = l := by
      intro l
      rw [List.length_append, Nat.add_sub_cancel, take_left]
    rw [hname, if_pos (isSuffixOf_iff_suffix.mpr (suffix_append _ _)), htake, take_append_drop]
  | executable =>
    change (if debugSuffix.isSuffixOf (id.drop 2) = true then _ else some (Artifact.mk (id.take 2 ++ id.drop 2) _)) = _
    rw [if_neg (by rw [(h.executable rfl).2]; exact Bool.false_ne_true), take_append_drop]

theorem Artifact.Plain.parsePath (h : a.Plain) {p : Path} (hp : pathFor a = some p) : parsePath p = some a := by
  rw [h.pathFor_eq] at hp
  exact Option.some.inj hp ▸ h.parsePath_fileName

theorem Artifact.Plain.eq_of_pathFor {b : Artifact} (ha : a.Plain) (hb : b.Plain) (h : pathFor a = pathFor b) :
    a = b := by
  have hp := ha.pathFor_eq
  exact Option.some.inj ((ha.parsePath hp).symm.trans (hb.parsePath (h.symm.trans hp)))

end PerfAgent.Debuginfod
