import PerfAgent.Pprof.Interning

/-!
# Call paths of a profile

A profile sample has the locations of its own stack, also when it was merged into an earlier one, if
the hash tells stacks apart.  So a profile preserves the call paths exactly when the frames that share
an address do not differ in name or line, as the frames of an inline chain do.
-/

namespace PerfAgent.Pprof

open List

variable (opt : Options)

/-! ## Where samples go -/

def Options.hashOf (d : ProfileSample × List Location) : UInt64 := opt.sampleHash (d.2.map Location.id) d.1.labels

def NoCollisions (ds : List (ProfileSample × List Location)) : Prop :=
  ∀ d ∈ ds, ∀ d' ∈ ds, d.1.aggregated = false → d'.1.aggregated = false →
    opt.hashOf d = opt.hashOf d' → d.2.map Location.id = d'.2.map Location.id

namespace ProfileBuilder

/-- The builder, after samples whose locations and places are `done`. -/
structure Stored (p : ProfileBuilder) (done : List ((ProfileSample × List Location) × Nat)) : Prop where
  location : ∀ d ∈ done, (p.sample[d.2]?).map Sample.location = some d.1.2
  hash : ∀ h i, p.sampleHashToSample.find? h = some i →
    ∃ d ∈ done, d.1.1.aggregated = false ∧ d.2 = i ∧ opt.hashOf d.1 = h
  has : ∀ d ∈ done, ∀ loc ∈ d.1.2, p.interned.Has loc
  listed : p.interned.Listed

theorem stored_empty : Stored opt {} [] where
  location := by simp
  hash := by simp
  has := by simp
  listed := by
    intro key loc h
    cases h

variable {opt} {p : ProfileBuilder} {done : List ((ProfileSample × List Location) × Nat)}

@[simp] theorem location_addValue (s : ProfileSample) (sample : Sample) :
    (opt.addValue s sample).location = sample.location := by
  unfold Options.addValue
  split <;> rfl

theorem Stored.append (h : p.Stored opt done) (s : ProfileSample) {p' : ProfileBuilder}
    (hinterned : p'.interned = (addStack opt.resolver s.pid p.interned s.stack).1)
    (hsample : p'.sample = p.sample ++
      [opt.addValue s (opt.newSample s (addStack opt.resolver s.pid p.interned s.stack).2)])
    (hhash : ∀ h i, p'.sampleHashToSample.find? h = some i → p.sampleHashToSample.find? h = some i ∨
      s.aggregated = false ∧ i = p.sample.length ∧
        h = opt.hashOf (s, (addStack opt.resolver s.pid p.interned s.stack).2)) :
    p'.Stored opt (done ++ [((s, (addStack opt.resolver s.pid p.interned s.stack).2), p.sample.length)]) := by
  obtain ⟨hle, hlisted, hhas⟩ := listed_addStack opt.resolver s.pid s.stack p.interned h.listed
  refine ⟨?_, ?_, ?_, hinterned ▸ hlisted⟩
  · intro d hd
    rw [hsample]
    rcases mem_append.mp hd with hd | hd
    · have hold := h.location d hd
      have hlt : d.2 < p.sample.length := by
        by_contra hge
        rw [getElem?_eq_none (Nat.not_lt.mp hge)] at hold
        cases hold
      rw [getElem?_append_left hlt]
      exact hold
    · obtain rfl := mem_singleton.mp hd
      rw [getElem?_concat_length, Option.map_some, location_addValue]
      rfl
  · intro k i hk
    rcases hhash k i hk with hk | ⟨hagg, rfl, rfl⟩
    · obtain ⟨d, hd, hrest⟩ := h.hash k i hk
      exact ⟨d, mem_append_left _ hd, hrest⟩
    · exact ⟨_, mem_append_right _ (mem_singleton_self _), hagg, rfl, rfl⟩
  · intro d hd loc hloc
    rw [hinterned]
    rcases mem_append.mp hd with hd | hd
    · exact (h.has d hd loc hloc).mono hle
    · obtain rfl := mem_singleton.mp hd
      exact hhas loc hloc

theorem Stored.merge (h : p.Stored opt done) (s : ProfileSample) (hagg : s.aggregated = false) (hcoll : NoCollisions opt
      (done.map Prod.fst ++ [(s, (addStack opt.resolver s.pid p.interned s.stack).2)])) {i : Nat}
    (hfind : p.sampleHashToSample.find? (opt.hashOf (s, (addStack opt.resolver s.pid p.interned s.stack).2)) = some i) :
    Stored opt { p with
        interned := (addStack opt.resolver s.pid p.interned s.stack).1
        sample := p.sample.modify i (opt.addValue s) }
      (done ++ [((s, (addStack opt.resolver s.pid p.interned s.stack).2), i)]) := by
  obtain ⟨hle, hlisted, hhas⟩ := listed_addStack opt.resolver s.pid s.stack p.interned h.listed
  obtain ⟨d, hd, hdagg, rfl, hdhash⟩ := h.hash _ i hfind
  have hids := hcoll _ (mem_append_left _ (mem_map_of_mem hd)) _
    (mem_append_right _ (mem_singleton_self _)) hdagg hagg hdhash
  have hlocs : d.1.2 = (addStack opt.resolver s.pid p.interned s.stack).2 :=
    Interned.eq_of_map_id (fun loc hloc => (h.has d hd loc hloc).mono hle) hhas hids
  have hmodify : ∀ j : Nat, ((p.sample.modify d.2 (opt.addValue s))[j]?).map Sample.location =
      (p.sample[j]?).map Sample.location := by
    intro j
    rw [getElem?_modify]
    cases p.sample[j]? with
    | none => rfl
    | some sample =>
      split
      · exact congrArg some (location_addValue s sample)
      · rfl
  refine ⟨?_, ?_, ?_, hlisted⟩
  · intro d' hd'
    rw [hmodify]
    rcases mem_append.mp hd' with hd' | hd'
    · exact h.location d' hd'
    · obtain rfl := mem_singleton.mp hd'
      exact (h.location d hd).trans (congrArg some hlocs)
  · intro k j hk
    obtain ⟨d', hd', hrest⟩ := h.hash k j hk
    exact ⟨d', mem_append_left _ hd', hrest⟩
  · intro d' hd' loc hloc
    rcases mem_append.mp hd' with hd' | hd'
    · exact (h.has d' hd' loc hloc).mono hle
    · obtain rfl := mem_singleton.mp hd'
      exact hhas loc hloc

theorem Stored.addSample (h : p.Stored opt done) (s : ProfileSample) (hcoll : NoCollisions opt
      (done.map Prod.fst ++ [(s, (addStack opt.resolver s.pid p.interned s.stack).2)])) :
    (p.addSample opt s).1.interned = (addStack opt.resolver s.pid p.interned s.stack).1 ∧
    (p.addSample opt s).1.Stored opt
      (done ++ [((s, (addStack opt.resolver s.pid p.interned s.stack).2), (p.addSample opt s).2)]) := by
  unfold ProfileBuilder.addSample
  by_cases hagg : s.aggregated = true
  · rw [if_pos hagg]
    exact ⟨rfl, h.append s rfl rfl fun h i hi => .inl hi⟩
  · rw [if_neg hagg]
    have hagg := Bool.not_eq_true _ ▸ hagg
    unfold createSampleOrAddValue
    cases hfind : p.sampleHashToSample.find? (opt.hashOf (s, (addStack opt.resolver s.pid p.interned s.stack).2)) with
    | some i =>
      unfold Options.hashOf at hfind
      dsimp only at hfind ⊢
      rw [hfind]
      exact ⟨rfl, h.merge s hagg hcoll hfind⟩
    | none =>
      unfold Options.hashOf at hfind
      dsimp only at hfind ⊢
      rw [hfind]
      refine ⟨rfl, h.append s rfl rfl fun k i hk => ?_⟩
      dsimp only at hk
      rw [AssocMap.find?_put] at hk
      split at hk
      · next heq =>
          cases hk
          exact .inr ⟨hagg, rfl, heq⟩
      · exact .inl hk

theorem Stored.addSamples (ss : List ProfileSample) (h : p.Stored opt done)
    (hcoll : NoCollisions opt (done.map Prod.fst ++ stacksOf opt.resolver p.interned ss)) :
    (ProfileBuilder.addSamples opt p ss).2.length = ss.length ∧ (ProfileBuilder.addSamples opt p ss).1.Stored opt
        (done ++ (stacksOf opt.resolver p.interned ss).zip (ProfileBuilder.addSamples opt p ss).2) := by
  induction ss generalizing p done with
  | nil =>
    refine ⟨rfl, ?_⟩
    rw [show stacksOf opt.resolver p.interned [] = [] from rfl, zip_nil_left, append_nil]
    exact h
  | cons s ss ih =>
    have hcons : done.map Prod.fst ++ stacksOf opt.resolver p.interned (s :: ss) =
        (done.map Prod.fst ++ [(s, (addStack opt.resolver s.pid p.interned s.stack).2)]) ++
          stacksOf opt.resolver (addStack opt.resolver s.pid p.interned s.stack).1 ss := by
      rw [append_assoc]
      rfl
    rw [hcons] at hcoll
    have hfirst : NoCollisions opt (done.map Prod.fst ++ [(s, (addStack opt.resolver s.pid p.interned s.stack).2)]) :=
      fun d hd d' hd' => hcoll d (mem_append_left _ hd) d' (mem_append_left _ hd')
    obtain ⟨hinterned, hstep⟩ := h.addSample s hfirst
    rw [← hinterned] at hcoll
    obtain ⟨hlen, hrest⟩ := ih hstep (by rw [map_append]; exact hcoll)
    refine ⟨congrArg Nat.succ hlen, ?_⟩
    rw [append_assoc, hinterned] at hrest
    exact hrest

end ProfileBuilder

/-! ## Reading a profile back -/

/-- Every sample of the run, read back from its place in the profile, has the names and lines of its
frames. -/
def PreservesCallPaths (ss : List ProfileSample) : Prop :=
  ∀ d ∈ ss.zip (ProfileBuilder.addSamples opt {} ss).2,
    ∃ sample, (ProfileBuilder.addSamples opt {} ss).1.sample[d.2]? = some sample ∧
      sample.location.map Location.read = (procFrames d.1.pid d.1.stack).map (expected opt.resolver)

variable (resolver : Option Resolver)

/-- The frames that share a mapping and an offset have one name and one line. -/
def OneFramePerAddress (ss : List ProfileSample) : Prop :=
  ∀ g ∈ allFrames ss, ∀ g' ∈ allFrames ss, addressKey resolver g ≠ none →
    addressKey resolver g = addressKey resolver g' → expected resolver g = expected resolver g'

variable {ss : List ProfileSample}

theorem mem_allFrames {s : ProfileSample} (hs : s ∈ ss) {g : ProcFrame} (hg : g ∈ procFrames s.pid s.stack) :
    g ∈ allFrames ss :=
  mem_flatMap.mpr ⟨s, hs, hg⟩

theorem oneFramePerAddress_iff (ss : List ProfileSample) : OneFramePerAddress resolver ss ↔
      ∀ g ∈ allFrames ss, expected resolver (representative resolver (allFrames ss) g) = expected resolver g := by
  constructor
  · intro h g hg
    obtain ⟨hmem, hkey⟩ : representative resolver (allFrames ss) g ∈ allFrames ss ∧ _ := addressKey_representative hg
    by_cases hnone : addressKey resolver g = none
    · rw [representative_of_none hnone]
    · exact h _ hmem g hg (hkey ▸ hnone) hkey
  · intro h g hg g' hg' hsome hkey
    rw [← h g hg, ← h g' hg', representative_congr hg hkey hsome]

variable {opt}

/-- The profile preserves the call paths when the locations of every stack read as they should. -/
theorem preservesCallPaths_iff_stacksOf (hcoll : NoCollisions opt (stacksOf opt.resolver {} ss)) :
    PreservesCallPaths opt ss ↔ ∀ d ∈ stacksOf opt.resolver {} ss,
      d.2.map Location.read = (procFrames d.1.pid d.1.stack).map (expected opt.resolver) := by
  obtain ⟨hlen, hstored⟩ := (ProfileBuilder.stored_empty opt).addSamples ss hcoll
  rw [nil_append] at hstored
  have hzip : ss.zip (ProfileBuilder.addSamples opt {} ss).2 =
      ((stacksOf opt.resolver {} ss).zip (ProfileBuilder.addSamples opt {} ss).2).map (Prod.map Prod.fst id) := by
    rw [← zip_map_left, map_fst_stacksOf]
  constructor
  · intro h d hd
    obtain ⟨i, hi, hget⟩ := mem_iff_getElem.mp hd
    have hlen' : i < (ProfileBuilder.addSamples opt {} ss).2.length := by
      have := congrArg List.length (map_fst_stacksOf opt.resolver {} ss)
      rw [length_map] at this
      rw [hlen, ← this]
      exact hi
    have hmem : (d, (ProfileBuilder.addSamples opt {} ss).2[i]) ∈
        (stacksOf opt.resolver {} ss).zip (ProfileBuilder.addSamples opt {} ss).2 := by
      rw [← hget, ← getElem_zip (h := by rw [length_zip]; exact lt_min hi hlen')]
      exact getElem_mem _
    obtain ⟨sample, hsample, hread⟩ := h _ (hzip ▸ mem_map_of_mem hmem)
    have hlocs := hstored.location _ hmem
    dsimp only [Prod.map, id] at hsample hread hlocs
    rw [hsample] at hlocs
    rw [← Option.some.inj hlocs]
    exact hread
  · intro h d hd
    rw [hzip] at hd
    obtain ⟨e, he, rfl⟩ := mem_map.mp hd
    obtain ⟨sample, hsample, hlocs⟩ := Option.map_eq_some_iff.mp (hstored.location e he)
    refine ⟨sample, hsample, ?_⟩
    rw [hlocs]
    exact h e.1 (of_mem_zip he).1

/-- A profile preserves the call paths exactly when the frames that share an address do not differ in
name or line. -/
theorem preservesCallPaths_iff (opt : Options) (ss : List ProfileSample)
    (hcoll : NoCollisions opt (stacksOf opt.resolver {} ss)) :
    PreservesCallPaths opt ss ↔ OneFramePerAddress opt.resolver ss := by
  rw [preservesCallPaths_iff_stacksOf hcoll, oneFramePerAddress_iff]
  have hempty : Interned.Holds opt.resolver {} [] := Interned.holds_empty
  have hreads := read_stacksOf ss {} [] hempty
  rw [nil_append] at hreads
  constructor
  · intro h g hg
    obtain ⟨s, hs, hg⟩ := mem_flatMap.mp hg
    rw [← map_fst_stacksOf opt.resolver {} ss] at hs
    obtain ⟨d, hd, rfl⟩ := mem_map.mp hs
    exact map_inj_left.mp ((hreads d hd).symm.trans (h d hd)) g hg
  · intro h d hd
    have hs : d.1 ∈ ss := by
      rw [← map_fst_stacksOf opt.resolver {} ss]
      exact mem_map_of_mem hd
    rw [hreads d hd]
    exact map_congr_left fun g hg => h g (mem_allFrames hs hg)

def oneBinary : Options where
  resolver := some fun _ _ => some { path := ascii "/bin/x", start := 0x400000, limit := 0x500000 }
  sum64 := fun bytes => UInt64.ofNat (leValue bytes)

def stackSample (stack : List Frame) : ProfileSample :=
  { pid := 7, sampleType := .cpu, aggregated := false, stack := stack, value := 1 }

def unresolvedLeaf : ProfileSample :=
  stackSample [{ name := ascii "0x402000", address := 0x402000, unresolved := true },
      { name := ascii "main", file := ascii "x.c", line := 10, address := 0x401000 }]

theorem preservesCallPaths_iff_unresolvedLeaf : PreservesCallPaths oneBinary [unresolvedLeaf, unresolvedLeaf] := by
  refine (preservesCallPaths_iff oneBinary [unresolvedLeaf, unresolvedLeaf] ?_).mpr ?_
  · intro d hd d' hd' _ _ _
    have hboth : ∀ e ∈ stacksOf oneBinary.resolver {} [unresolvedLeaf, unresolvedLeaf],
        e.2.map Location.id = [1, 2] := by decide
    rw [hboth d hd, hboth d' hd']
  · unfold OneFramePerAddress
    decide

/-- `main`, with a call that was inlined. -/
def inlinedCall : ProfileSample :=
  stackSample (toProfFrames
    [{ name := ascii "main", file := ascii "x.c", line := 10, startLine := 1, address := 0x401000,
       module := ascii "/bin/x", buildID := [],
       inlined := [{ name := ascii "callee", file := ascii "x.c", line := 60, startLine := 50 }],
       reason := .none, mapStart := 0, mapLimit := 0, mapOff := 0 }])

/-- The stack comes back as the inlined call, twice. -/
theorem not_preservesCallPaths_inlinedCall : NoCollisions oneBinary (stacksOf oneBinary.resolver {} [inlinedCall]) ∧
      ¬ PreservesCallPaths oneBinary [inlinedCall] := by
  constructor
  · intro d hd d' hd' _ _ _
    have hsame : ∀ e ∈ stacksOf oneBinary.resolver {} [inlinedCall], e.2.map Location.id = [1, 1] := by decide
    rw [hsame d hd, hsame d' hd']
  · intro h
    obtain ⟨sample, hsample, hread⟩ := h (inlinedCall, 0) (mem_singleton_self _)
    obtain rfl := Option.some.inj hsample
    exact absurd hread (by decide)

end PerfAgent.Pprof
