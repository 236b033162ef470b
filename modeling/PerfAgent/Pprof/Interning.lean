import PerfAgent.Pprof.Builder

/-!
# What a location reads as

A location is interned under the mapping and the offset of its frame, so the frames that share an
address share the location of the first of them, and read as that one.  A frame that goes under its
name reads as itself.
-/

namespace PerfAgent.Pprof

open List Option AssocMap

/-! ## What should come back -/

variable {gs : List ProcFrame} {g : ProcFrame}

/-- A location, read through `Line[0].Function`. -/
def Location.read (l : Location) : List UInt8 × Int := (l.function.name, l.line)

section Expected

variable (resolver : Option Resolver)

abbrev ProcFrame := UInt32 × Frame

def addressKey (g : ProcFrame) : Option (MappingKey × UInt64) :=
  match route resolver (decodePerfMapFrame g.2) g.1 with
  | .byAddr m frame => some (m.key, frame.offset)
  | .byFallback _ _ => none

/-- The name and the line of a frame, after perf-map decoding and the renaming of frames without a
symbol. -/
def expected (g : ProcFrame) : List UInt8 × Int :=
  match route resolver (decodePerfMapFrame g.2) g.1 with
  | .byAddr m frame => ((frame.rename m.path).name, frame.line.toNat)
  | .byFallback _ frame => (frame.name, frame.line.toNat)

/-- The first of the frames that has the address of `g`. -/
def representative (gs : List ProcFrame) (g : ProcFrame) : ProcFrame :=
  match addressKey resolver g with
  | none => g
  | some key => (gs.find? fun h => addressKey resolver h = some key).getD g

variable {resolver}

theorem representative_of_none (hkey : addressKey resolver g = none) : representative resolver gs g = g := by
  unfold representative
  rw [hkey]

theorem representative_of_some {key : MappingKey × UInt64} (hkey : addressKey resolver g = some key) :
    representative resolver gs g = (gs.find? fun h => addressKey resolver h = some key).getD g := by
  unfold representative
  rw [hkey]

theorem exists_find?_addressKey (hg : g ∈ gs) {key : MappingKey × UInt64} (hkey : addressKey resolver g = some key) :
    ∃ h, (gs.find? fun h => addressKey resolver h = some key) = some h := by
  refine isSome_iff_exists.mp (find?_isSome.mpr ⟨g, hg, ?_⟩)
  exact decide_eq_true hkey

theorem representative_append (hg : g ∈ gs) (gs' : List ProcFrame) :
    representative resolver (gs ++ gs') g = representative resolver gs g := by
  cases hkey : addressKey resolver g with
  | none => rw [representative_of_none hkey, representative_of_none hkey]
  | some key =>
    obtain ⟨h, hfind⟩ := exists_find?_addressKey hg hkey
    rw [representative_of_some hkey, representative_of_some hkey, find?_append, hfind]
    rfl

theorem addressKey_representative (hg : g ∈ gs) :
    representative resolver gs g ∈ gs ∧ addressKey resolver (representative resolver gs g) = addressKey resolver g := by
  cases hkey : addressKey resolver g with
  | none =>
    rw [representative_of_none hkey]
    exact ⟨hg, hkey⟩
  | some key =>
    obtain ⟨h, hfind⟩ := exists_find?_addressKey hg hkey
    rw [representative_of_some hkey, hfind]
    exact ⟨mem_of_find?_eq_some hfind, by simpa using find?_some hfind⟩

theorem representative_congr {h : ProcFrame} (hg : g ∈ gs) (hkey : addressKey resolver g = addressKey resolver h)
    (hsome : addressKey resolver g ≠ none) : representative resolver gs g = representative resolver gs h := by
  obtain ⟨key, hk⟩ := ne_none_iff_exists'.mp hsome
  obtain ⟨first, hfind⟩ := exists_find?_addressKey hg hk
  rw [representative_of_some hk, representative_of_some (hkey.symm.trans hk), hfind]
  rfl

end Expected

/-! ## What the builder has interned -/

namespace Interned

/-- The tables, after the frames `seen` were added. -/
structure Holds (resolver : Option Resolver) (t : Interned) (seen : List ProcFrame) : Prop where
  file : ∀ k m, t.mappings.find? k = some m → m.file = k.path
  id_le : ∀ k m, t.mappings.find? k = some m → m.id ≤ t.mapping.length
  id_inj : ∀ k k' m m', t.mappings.find? k = some m → t.mappings.find? k' = some m' → m.id = m'.id → k = k'
  name : ∀ k f, t.functions.find? k = some f → f.name = k.name
  addr_le : ∀ id address loc, t.locations.find? (.addr id address) = some loc → id ≤ t.mapping.length
  fallback : ∀ name file module line loc,
    t.locations.find? (.fallback name file module line) = some loc → loc.read = (name, (line.toNat : Int))
  addr : ∀ k address, ((t.mappings.find? k).bind fun m => (t.locations.find? (.addr m.id address)).map Location.read) =
      (seen.find? fun g => addressKey resolver g = some (k, address)).map (expected resolver)

variable {resolver : Option Resolver} {t : Interned} {seen : List ProcFrame}

theorem holds_empty : Holds resolver {} [] where
  file := by simp
  id_le := by simp
  id_inj := by simp
  name := by simp
  addr_le := by simp
  fallback := by simp
  addr := by simp

theorem Holds.addMapping (h : t.Holds resolver seen) (m : ProcMapping) (frame : Frame) :
    (t.addMapping m frame).1.Holds resolver seen ∧
      (t.addMapping m frame).1.mappings.find? m.key = some (t.addMapping m frame).2 := by
  unfold Interned.addMapping
  cases hfind : t.mappings.find? m.key with
  | some existing => exact ⟨⟨h.file, h.id_le, h.id_inj, h.name, h.addr_le, h.fallback, h.addr⟩, hfind⟩
  | none =>
    have hlength : ∀ m' : Mapping, (t.mapping ++ [m']).length = t.mapping.length + 1 := fun m' => by simp
    refine ⟨⟨?_, ?_, ?_, h.name, ?_, h.fallback, ?_⟩, find?_put_self _ _ _⟩
    · intro k m' hk
      dsimp only at hk
      rw [find?_put] at hk
      split at hk
      · next heq =>
          cases hk
          rw [heq]
          rfl
      · exact h.file k m' hk
    · intro k m' hk
      dsimp only at hk
      rw [find?_put] at hk
      refine (?_ : _ ≤ t.mapping.length + 1).trans_eq (hlength _).symm
      split at hk
      · cases hk
        exact Nat.le_refl _
      · exact Nat.le_succ_of_le (h.id_le k m' hk)
    · intro k k' m₁ m₂ hk hk' hid
      dsimp only at hk hk'
      rw [find?_put] at hk hk'
      split at hk <;> split at hk'
      · next heq heq' => exact heq.trans heq'.symm
      · cases hk
        exact absurd (h.id_le k' m₂ hk') (by rw [← hid]; exact Nat.not_succ_le_self _)
      · cases hk'
        exact absurd (h.id_le k m₁ hk) (by rw [hid]; exact Nat.not_succ_le_self _)
      · exact h.id_inj k k' m₁ m₂ hk hk' hid
    · intro id address loc hloc
      exact (Nat.le_succ_of_le (h.addr_le id address loc hloc)).trans_eq (hlength _).symm
    · intro k address
      rw [← h.addr k address]
      dsimp only
      rw [find?_put]
      split
      · next heq =>
          -- the mapping is new, and so no location is under its id
          rw [heq, hfind]
          show Option.map Location.read (t.locations.find? (.addr (t.mapping.length + 1) address)) = none
          cases hloc : t.locations.find? (.addr (t.mapping.length + 1) address) with
          | none => rfl
          | some loc => exact absurd (h.addr_le _ _ _ hloc) (Nat.not_succ_le_self _)
      · rfl

theorem Holds.addFunction (h : t.Holds resolver seen) (frame : Frame) (id : Nat) :
    (t.addFunction frame id).2.name = frame.name ∧
      (∀ k f, (t.addFunction frame id).1.functions.find? k = some f → f.name = k.name) := by
  unfold Interned.addFunction
  cases hfind : t.functions.find? { mappingID := id, name := frame.name } with
  | some f => exact ⟨h.name _ f hfind, h.name⟩
  | none =>
    refine ⟨rfl, fun k f hk => ?_⟩
    dsimp only at hk
    rw [find?_put] at hk
    split at hk
    · next heq =>
        cases hk
        rw [heq]
    · exact h.name k f hk

@[simp] theorem mappings_addFunction (frame : Frame) (id : Nat) : (t.addFunction frame id).1.mappings = t.mappings := by
  unfold Interned.addFunction
  split <;> rfl

@[simp] theorem mapping_addFunction (frame : Frame) (id : Nat) : (t.addFunction frame id).1.mapping = t.mapping := by
  unfold Interned.addFunction
  split <;> rfl

@[simp] theorem locations_addFunction (frame : Frame) (id : Nat) :
    (t.addFunction frame id).1.locations = t.locations := by
  unfold Interned.addFunction
  split <;> rfl

@[simp] theorem location_addFunction (frame : Frame) (id : Nat) : (t.addFunction frame id).1.location = t.location := by
  unfold Interned.addFunction
  split <;> rfl

section Under

variable (key : LocationKey) (mapping : Mapping) (address : UInt64) (frame : Frame)

@[simp] theorem mappings_addLocationUnder : (t.addLocationUnder key mapping address frame).1.mappings = t.mappings := by
  unfold addLocationUnder
  split
  · rfl
  · exact mappings_addFunction frame mapping.id

@[simp] theorem mapping_addLocationUnder : (t.addLocationUnder key mapping address frame).1.mapping = t.mapping := by
  unfold addLocationUnder
  split
  · rfl
  · exact mapping_addFunction frame mapping.id

theorem find?_addLocationUnder (key' : LocationKey) :
    (t.addLocationUnder key mapping address frame).1.locations.find? key' =
      if key' = key then some (t.addLocationUnder key mapping address frame).2 else t.locations.find? key' := by
  unfold addLocationUnder
  cases hfind : t.locations.find? key with
  | some loc =>
    by_cases heq : key' = key
    · rw [if_pos heq, heq]
      exact hfind
    · rw [if_neg heq]
  | none =>
    dsimp only
    rw [find?_put, locations_addFunction]

theorem Holds.read_addLocationUnder (h : t.Holds resolver seen) :
    (t.addLocationUnder key mapping address frame).2.read =
      ((t.locations.find? key).map Location.read).getD (frame.name, (frame.line.toNat : Int)) := by
  unfold addLocationUnder
  cases hfind : t.locations.find? key with
  | some loc => rfl
  | none => exact congrArg (fun name => (name, _)) (h.addFunction frame mapping.id).1

theorem Holds.names_addLocationUnder (h : t.Holds resolver seen) (k : FunctionKey) (f : Function)
    (hk : (t.addLocationUnder key mapping address frame).1.functions.find? k = some f) : f.name = k.name := by
  unfold addLocationUnder at hk
  cases hfind : t.locations.find? key with
  | some loc =>
    rw [hfind] at hk
    exact h.name k f hk
  | none =>
    rw [hfind] at hk
    exact (h.addFunction frame mapping.id).2 k f hk

theorem Holds.addLocationUnder (h : t.Holds resolver seen) {seen' : List ProcFrame}
    (hid : ∀ id a, key = .addr id a → id ≤ t.mapping.length)
    (hfallback : ∀ name file module line, key = .fallback name file module line →
      (t.addLocationUnder key mapping address frame).2.read = (name, (line.toNat : Int)))
    (haddr : ∀ k a, ((t.mappings.find? k).bind fun m =>
        ((t.addLocationUnder key mapping address frame).1.locations.find? (.addr m.id a)).map Location.read) =
          (seen'.find? fun g => addressKey resolver g = some (k, a)).map (expected resolver)) :
    (t.addLocationUnder key mapping address frame).1.Holds resolver seen' where
  file := by
    rw [mappings_addLocationUnder]
    exact h.file
  id_le := by
    rw [mappings_addLocationUnder, mapping_addLocationUnder]
    exact h.id_le
  id_inj := by
    rw [mappings_addLocationUnder]
    exact h.id_inj
  name := h.names_addLocationUnder key mapping address frame
  addr_le := by
    intro id a loc hloc
    rw [find?_addLocationUnder] at hloc
    rw [mapping_addLocationUnder]
    split at hloc
    · next heq => exact hid id a heq.symm
    · exact h.addr_le id a loc hloc
  fallback := by
    intro name file module line loc hloc
    rw [find?_addLocationUnder] at hloc
    split at hloc
    · next heq =>
        cases hloc
        exact hfallback name file module line heq.symm
    · exact h.fallback name file module line loc hloc
  addr := by
    rw [mappings_addLocationUnder]
    exact haddr

end Under

theorem Holds.addLocationByAddr (h : t.Holds resolver seen) {g : ProcFrame} {m : ProcMapping} {frame : Frame}
    (hroute : route resolver (decodePerfMapFrame g.2) g.1 = .byAddr m frame) {mapping : Mapping}
    (hfind : t.mappings.find? m.key = some mapping) :
    (t.addLocationByAddr mapping frame).1.Holds resolver (seen ++ [g]) ∧
      (t.addLocationByAddr mapping frame).2.read = expected resolver (representative resolver (seen ++ [g]) g) := by
  have hkey : addressKey resolver g = some (m.key, frame.offset) := by
    unfold addressKey
    rw [hroute]
  have hread : (t.addLocationByAddr mapping frame).2.read =
      ((t.locations.find? (.addr mapping.id frame.offset)).map Location.read).getD (expected resolver g) := by
    have hline : (frame.rename m.path).line = frame.line := by
      unfold Frame.rename
      split <;> rfl
    unfold expected Interned.addLocationByAddr
    rw [h.read_addLocationUnder, hroute, h.file _ _ hfind, show m.key.path = m.path from rfl, hline]
  have hfirst := h.addr m.key frame.offset
  rw [hfind, bind_some] at hfirst
  refine ⟨h.addLocationUnder _ _ _ _ ?_ ?_ fun k a => ?_, ?_⟩
  · rintro id a heq
    cases heq
    exact h.id_le _ _ hfind
  · rintro name file module line heq
    cases heq
  · rw [find?_append, map_or, ← h.addr k a, find?_singleton, hkey]
    by_cases hsame : (m.key, frame.offset) = (k, a)
    · cases hsame
      rw [if_pos (decide_eq_true rfl), hfind, bind_some, bind_some, find?_addLocationUnder, if_pos rfl]
      refine (congrArg some hread).trans ?_
      cases t.locations.find? (.addr mapping.id frame.offset) with
      | none => rfl
      | some loc => rfl
    · rw [if_neg (by simpa using hsame), map_none, or_none]
      cases hk : t.mappings.find? k with
      | none => rfl
      | some m' =>
        rw [bind_some, bind_some, find?_addLocationUnder, if_neg]
        intro heq
        obtain ⟨hid, ha⟩ := LocationKey.addr.inj heq
        exact hsame (Prod.ext (h.id_inj _ _ _ _ hfind hk hid.symm) ha.symm)
  · rw [hread, hfirst, representative_of_some hkey, find?_append, find?_singleton,
      if_pos (decide_eq_true hkey)]
    cases seen.find? fun g => addressKey resolver g = some (m.key, frame.offset) with
    | none => rfl
    | some first => rfl

theorem Holds.addLocationByFallback (h : t.Holds resolver seen) {g : ProcFrame} {m : Option ProcMapping}
    {frame : Frame} (hroute : route resolver (decodePerfMapFrame g.2) g.1 = .byFallback m frame) (mapping : Mapping) :
    (t.addLocationByFallback mapping frame).1.Holds resolver (seen ++ [g]) ∧
      (t.addLocationByFallback mapping frame).2.read = expected resolver (representative resolver (seen ++ [g]) g) := by
  have hkey : addressKey resolver g = none := by
    unfold addressKey
    rw [hroute]
  have hexpected : expected resolver g = (frame.name, (frame.line.toNat : Int)) := by
    unfold expected
    rw [hroute]
  have hread : (t.addLocationByFallback mapping frame).2.read = expected resolver g := by
    unfold Interned.addLocationByFallback
    rw [h.read_addLocationUnder, hexpected]
    cases hloc : t.locations.find? frame.fallbackKey with
    | none => rfl
    | some loc => exact h.fallback _ _ _ _ loc hloc
  refine ⟨h.addLocationUnder _ _ _ _ ?_ ?_ fun k a => ?_, ?_⟩
  · rintro id a heq
    cases heq
  · rintro name file module line heq
    cases heq
    exact hread.trans hexpected
  · rw [find?_append, map_or, ← h.addr k a, find?_singleton, hkey]
    simp only [find?_addLocationUnder, Frame.fallbackKey, reduceCtorEq, decide_false, Bool.false_eq_true, if_false,
      map_none, or_none]
  · rw [representative_of_none hkey]
    exact hread

end Interned

theorem holds_addLocation {resolver : Option Resolver} {t : Interned} {seen : List ProcFrame}
    (h : t.Holds resolver seen) (g : ProcFrame) :
    (addLocation resolver t g.2 g.1).1.Holds resolver (seen ++ [g]) ∧
      (addLocation resolver t g.2 g.1).2.read = expected resolver (representative resolver (seen ++ [g]) g) := by
  unfold addLocation
  cases hroute : route resolver (decodePerfMapFrame g.2) g.1 with
  | byAddr m frame =>
    obtain ⟨hm, hfind⟩ := h.addMapping m frame
    exact hm.addLocationByAddr hroute hfind
  | byFallback m frame =>
    cases m with
    | none => exact h.addLocationByFallback hroute defaultMapping
    | some m => exact (h.addMapping m frame).1.addLocationByFallback hroute _

variable (pid : UInt32)

def procFrames (stack : List Frame) : List ProcFrame := stack.map fun f => (pid, f)

theorem holds_addStack {resolver : Option Resolver} (stack : List Frame) (t : Interned) (seen : List ProcFrame)
    (h : t.Holds resolver seen) :
    (addStack resolver pid t stack).1.Holds resolver (seen ++ procFrames pid stack) ∧
      ∀ later, (addStack resolver pid t stack).2.map Location.read = (procFrames pid stack).map fun g =>
          expected resolver (representative resolver (seen ++ procFrames pid stack ++ later) g) := by
  induction stack generalizing t seen with
  | nil =>
    rw [show procFrames pid [] = [] from rfl, append_nil]
    exact ⟨h, fun _ => rfl⟩
  | cons f stack ih =>
    obtain ⟨hstep, hread⟩ := holds_addLocation h (pid, f)
    obtain ⟨hrest, hreads⟩ := ih _ _ hstep
    have hcons : seen ++ procFrames pid (f :: stack) = seen ++ [(pid, f)] ++ procFrames pid stack := by
      simp [procFrames]
    rw [hcons]
    refine ⟨hrest, fun later => ?_⟩
    have hmem : (pid, f) ∈ seen ++ [(pid, f)] := mem_append_right seen (mem_singleton_self _)
    have hhead : representative resolver (seen ++ [(pid, f)] ++ procFrames pid stack ++ later) (pid, f) =
        representative resolver (seen ++ [(pid, f)]) (pid, f) := by
      rw [append_assoc _ _ later]
      exact representative_append hmem _
    exact congrArg₂ List.cons (hread.trans (congrArg _ hhead.symm)) (hreads later)

def stacksOf (resolver : Option Resolver) : Interned → List ProfileSample → List (ProfileSample × List Location)
  | _, [] => []
  | t, s :: ss =>
    let (t, locs) := addStack resolver s.pid t s.stack
    (s, locs) :: stacksOf resolver t ss

variable (ss : List ProfileSample)

def allFrames : List ProcFrame := ss.flatMap fun s => procFrames s.pid s.stack

theorem map_fst_stacksOf (resolver : Option Resolver) (t : Interned) (ss : List ProfileSample) :
    (stacksOf resolver t ss).map Prod.fst = ss := by
  induction ss generalizing t with
  | nil => rfl
  | cons s ss ih => exact congrArg (s :: ·) (ih _)

theorem read_stacksOf {resolver : Option Resolver} (t : Interned) (seen : List ProcFrame) (h : t.Holds resolver seen) :
    ∀ d ∈ stacksOf resolver t ss, d.2.map Location.read = (procFrames d.1.pid d.1.stack).map fun g =>
        expected resolver (representative resolver (seen ++ allFrames ss) g) := by
  induction ss generalizing t seen with
  | nil =>
    intro d hd
    cases hd
  | cons s ss ih =>
    obtain ⟨hstep, hreads⟩ := holds_addStack s.pid s.stack t seen h
    have hcons : seen ++ allFrames (s :: ss) = seen ++ procFrames s.pid s.stack ++ allFrames ss := by
      simp [allFrames]
    intro d hd
    rw [hcons]
    rcases mem_cons.mp hd with rfl | hd
    · exact hreads (allFrames ss)
    · exact ih _ _ hstep d hd

variable {loc : Location}

/-! ## Locations and their ids -/

namespace Interned

def Has (t : Interned) (loc : Location) : Prop := ∃ i, loc.id = i + 1 ∧ t.location[i]? = some loc

def Listed (t : Interned) : Prop := ∀ key loc, t.locations.find? key = some loc → t.Has loc

variable {t t' : Interned}

theorem Has.mono (h : t.Has loc) (hle : t.location <+: t'.location) : t'.Has loc := by
  obtain ⟨i, hid, hi⟩ := h
  obtain ⟨more, heq⟩ := hle
  refine ⟨i, hid, ?_⟩
  rw [← heq]
  exact getElem?_append_left (List.getElem?_eq_some_iff.mp hi).1 ▸ hi

theorem Has.eq_of_id {loc' : Location} (h : t.Has loc) (h' : t.Has loc') (hid : loc.id = loc'.id) : loc = loc' := by
  obtain ⟨i, hi, hloc⟩ := h
  obtain ⟨j, hj, hloc'⟩ := h'
  obtain rfl : i = j := Nat.succ.inj (hi.symm.trans (hid.trans hj))
  exact Option.some.inj (hloc.symm.trans hloc')

theorem eq_of_map_id {locs locs' : List Location} (h : ∀ loc ∈ locs, t.Has loc) (h' : ∀ loc ∈ locs', t.Has loc)
    (hids : locs.map Location.id = locs'.map Location.id) : locs = locs' := by
  induction locs generalizing locs' with
  | nil => exact (map_eq_nil_iff.mp hids.symm).symm
  | cons loc locs ih =>
    cases locs' with
    | nil => cases hids
    | cons loc' locs' =>
      obtain ⟨hid, hids⟩ := List.cons.inj hids
      have hhead := (h loc (.head _)).eq_of_id (h' loc' (.head _)) hid
      rw [hhead, ih (fun l hl => h l (.tail _ hl)) (fun l hl => h' l (.tail _ hl)) hids]

/-- A step that only adds to the profile, and returns something that is in it. -/
structure Extends (t t' : Interned) (loc : Location) : Prop where
  le : t.location <+: t'.location
  listed : t.Listed → t'.Listed
  has : t.Listed → t'.Has loc

theorem extends_addLocationUnder (key : LocationKey) (mapping : Mapping) (address : UInt64) (frame : Frame) :
    t.Extends (t.addLocationUnder key mapping address frame).1 (t.addLocationUnder key mapping address frame).2 := by
  have hle : t.location <+: (t.addLocationUnder key mapping address frame).1.location := by
    unfold addLocationUnder
    cases t.locations.find? key with
    | some loc => exact prefix_rfl
    | none =>
      dsimp only
      rw [location_addFunction]
      exact prefix_append _ _
  have hhas : t.Listed → (t.addLocationUnder key mapping address frame).1.Has
      (t.addLocationUnder key mapping address frame).2 := by
    intro h
    unfold addLocationUnder
    cases hfind : t.locations.find? key with
    | some loc => exact h key loc hfind
    | none =>
      refine ⟨t.location.length, rfl, ?_⟩
      dsimp only
      rw [location_addFunction]
      exact getElem?_concat_length
  refine ⟨hle, fun h key' loc hloc => ?_, hhas⟩
  rw [find?_addLocationUnder] at hloc
  split at hloc
  · cases hloc
    exact hhas h
  · exact (h key' loc hloc).mono hle

theorem location_addMapping (m : ProcMapping) (frame : Frame) :
    (t.addMapping m frame).1.location = t.location ∧ (t.addMapping m frame).1.locations = t.locations := by
  unfold Interned.addMapping
  split <;> exact ⟨rfl, rfl⟩

theorem Extends.of_addMapping {m : ProcMapping} {frame : Frame} (h : (t.addMapping m frame).1.Extends t' loc) :
    t.Extends t' loc := by
  obtain ⟨hlocation, hlocations⟩ := location_addMapping (t := t) m frame
  have hlisted : t.Listed → (t.addMapping m frame).1.Listed := by
    intro ht key loc hfind
    rw [hlocations] at hfind
    exact (ht key loc hfind).mono (by rw [hlocation])
  exact ⟨hlocation ▸ h.le, fun ht => h.listed (hlisted ht), fun ht => h.has (hlisted ht)⟩

end Interned

theorem extends_addLocation (resolver : Option Resolver) (t : Interned) (f : Frame) (pid : UInt32) :
    t.Extends (addLocation resolver t f pid).1 (addLocation resolver t f pid).2 := by
  unfold addLocation
  split
  · exact (Interned.extends_addLocationUnder _ _ _ _).of_addMapping
  · exact (Interned.extends_addLocationUnder _ _ _ _).of_addMapping
  · exact Interned.extends_addLocationUnder _ _ _ _

theorem listed_addStack (resolver : Option Resolver) (pid : UInt32) (stack : List Frame) (t : Interned) (h : t.Listed) :
    t.location <+: (addStack resolver pid t stack).1.location ∧ (addStack resolver pid t stack).1.Listed ∧
      ∀ loc ∈ (addStack resolver pid t stack).2, (addStack resolver pid t stack).1.Has loc := by
  induction stack generalizing t with
  | nil =>
    refine ⟨prefix_rfl, h, fun loc hloc => ?_⟩
    cases hloc
  | cons f stack ih =>
    have hstep := extends_addLocation resolver t f pid
    obtain ⟨hle, hlisted, hhas⟩ := ih _ (hstep.listed h)
    refine ⟨hstep.le.trans hle, hlisted, fun loc hloc => ?_⟩
    rcases mem_cons.mp hloc with rfl | hloc
    · exact (hstep.has h).mono hle
    · exact hhas loc hloc

end PerfAgent.Pprof
