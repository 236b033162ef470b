import PerfAgent.Unwind.HeldTables
import PerfAgent.Unwind.Tracker

/-!
# The references of the tracker are balanced

A process refers to a table in the store exactly when its state records it, and a table is in the
maps exactly when some process refers to it.  The store keeps its half of this through every
`AcquireBinary` and `ReleaseBinary`; the tracker keeps the other half as long as its calls are
`Contained`.

What breaks it is the order in which a call does things.  `Attach` takes a reference before it
looks at the mappings and drops it when there are none, also when an earlier `Attach` has recorded
it.  It records the new mappings before it hands them to the walker, and `Detach` forgets the
process before it deletes from the maps.
-/

namespace PerfAgent.Unwind

open List Option AssocMap

/-! ## The store -/

variable (m : Tables)

def Tables.Absent (tableID : UInt64) : Prop :=
  m.cfiRules.find? tableID = none ∧ m.cfiLengths.find? tableID = none

theorem Tables.Absent.of_sameAt {m m' : Tables} {tableID : UInt64} (h : m.Absent tableID)
    (hs : m.SameAt m' tableID) : m'.Absent tableID :=
  ⟨hs.1.trans h.1, hs.2.trans h.2⟩

def Tables.SameMappings (m' : Tables) : Prop :=
  m'.pidMappings = m.pidMappings ∧ m'.pidMappingLengths = m.pidMappingLengths

theorem Tables.SameMappings.trans {m m' m'' : Tables} (h : m.SameMappings m') (h' : m'.SameMappings m'') :
    m.SameMappings m'' :=
  ⟨h'.1.trans h.1, h'.2.trans h.2⟩

/-- A `PopulateCFI` that fails leaves the maps alone, unless it is the length that it cannot
write; one that succeeds can be taken back. -/
theorem populateCFI_effect {m m' : Tables} {tableID : UInt64} {entries : List CFIEntry}
    {fails : Option KernelCall} {err : Option PopulateError} (hfails : fails ≠ some .writeLength)
    (h : m.populateCFI tableID entries fails = (m', err)) :
    (err ≠ none → m' = m) ∧
      (err = none → m' = { m with
        cfiRules := m.cfiRules.put tableID entries
        cfiLengths := m.cfiLengths.put tableID (UInt32.ofNat entries.length) }) := by
  unfold Tables.populateCFI at h
  split at h
  · cases h
    exact ⟨fun _ => rfl, nofun⟩
  · split at h
    · cases h
      exact ⟨fun _ => rfl, nofun⟩
    · dsimp only at h
      split at h
      · cases h
        exact ⟨fun _ => rfl, nofun⟩
      · cases h
        exact ⟨fun _ => rfl, nofun⟩
      · cases h
        exact ⟨fun _ => rfl, nofun⟩
      · exact absurd rfl hfails
      · cases h
        exact ⟨fun hne => absurd rfl hne, fun _ => rfl⟩

namespace TableStore

/-- Between calls nothing is in flight, and a table is installed, with its rows in the maps,
exactly when someone refers to it. -/
structure Sound (s : TableStore) : Prop where
  idle : s.inflight = ∅
  installed : ∀ t, t ∈ s.installed ↔ ∃ pid, (t, pid) ∈ s.rc
  present : ∀ t ∈ s.installed, s.tables.Present t
  absent : ∀ t, t ∉ s.installed → s.tables.Absent t

variable {s s' : TableStore} {tableID : UInt64} {pid : UInt32}

theorem not_mem_rc (h : s.Sound) (hout : tableID ∉ s.installed) : (tableID, pid) ∉ s.rc :=
  fun hin => hout ((h.installed tableID).mpr ⟨pid, hin⟩)

theorem pids_pos_iff (r : RefcountTable) : 0 < (r.pids tableID).card ↔ ∃ pid, (tableID, pid) ∈ r := by
  rw [Finset.card_pos]
  constructor
  · rintro ⟨⟨t, pid⟩, hx⟩
    obtain ⟨hin, rfl⟩ := Finset.mem_filter.mp hx
    exact ⟨pid, hin⟩
  · rintro ⟨pid, hin⟩
    exact ⟨(tableID, pid), Finset.mem_filter.mpr ⟨hin, rfl⟩⟩

/-- What a successful `AcquireBinary` leaves behind. -/
structure Acquired (s : TableStore) (tableID : UInt64) (pid : UInt32) (s' : TableStore) : Prop where
  rc : s'.rc = insert (tableID, pid) s.rc
  sound : s'.Sound
  mappings : s.tables.SameMappings s'.tables
  undo : (tableID, pid) ∉ s.rc → (s'.releaseBinary tableID pid).1 = s

theorem Sound.acquired_installed (h : s.Sound) (hin : tableID ∈ s.installed) :
    Acquired s tableID pid { s with rc := insert (tableID, pid) s.rc } := by
  refine ⟨rfl, ⟨h.idle, ?_, h.present, h.absent⟩, ⟨rfl, rfl⟩, ?_⟩
  · intro t
    rw [h.installed]
    constructor
    · rintro ⟨p, hp⟩
      exact ⟨p, Finset.mem_insert_of_mem hp⟩
    · rintro ⟨p, hp⟩
      obtain heq | hp := Finset.mem_insert.mp hp
      · cases heq
        exact (h.installed tableID).mp hin
      · exact ⟨p, hp⟩
  · intro hnew
    have hrc : (insert (tableID, pid) s.rc).erase (tableID, pid) = s.rc := Finset.erase_insert hnew
    have hpos : 0 < (RefcountTable.pids s.rc tableID).card := (pids_pos_iff _).mpr ((h.installed _).mp hin)
    unfold releaseBinary RefcountTable.release
    dsimp only
    rw [hrc, if_pos hpos]

theorem Sound.acquired_built (h : s.Sound) (hout : tableID ∉ s.installed) (entries : List CFIEntry) :
    Acquired s tableID pid { s with
      rc := insert (tableID, pid) s.rc
      installed := insert tableID s.installed
      tables := { s.tables with
        cfiRules := s.tables.cfiRules.put tableID entries
        cfiLengths := s.tables.cfiLengths.put tableID (UInt32.ofNat entries.length) } } := by
  have hsame : ∀ t, t ≠ tableID → s.tables.SameAt { s.tables with
      cfiRules := s.tables.cfiRules.put tableID entries
      cfiLengths := s.tables.cfiLengths.put tableID (UInt32.ofNat entries.length) } t :=
    fun t ht => ⟨find?_put_of_ne _ _ ht, find?_put_of_ne _ _ ht⟩
  refine ⟨rfl, ⟨h.idle, ?_, ?_, ?_⟩, ⟨rfl, rfl⟩, ?_⟩
  · intro t
    constructor
    · intro ht
      obtain rfl | ht := Finset.mem_insert.mp ht
      · exact ⟨pid, Finset.mem_insert_self _ _⟩
      · obtain ⟨p, hp⟩ := (h.installed t).mp ht
        exact ⟨p, Finset.mem_insert_of_mem hp⟩
    · rintro ⟨p, hp⟩
      obtain heq | hp := Finset.mem_insert.mp hp
      · cases heq
        exact Finset.mem_insert_self _ _
      · exact Finset.mem_insert_of_mem ((h.installed t).mpr ⟨p, hp⟩)
  · intro t ht
    by_cases htne : t = tableID
    · subst htne
      exact ⟨entries, find?_put_self _ _ _, find?_put_self _ _ _⟩
    · exact (h.present t (Finset.mem_of_mem_insert_of_ne ht htne)).of_sameAt (hsame t htne)
  · intro t ht
    rw [Finset.mem_insert, not_or] at ht
    exact (h.absent t ht.2).of_sameAt (hsame t ht.1)
  · intro hnew
    have hrc : (insert (tableID, pid) s.rc).erase (tableID, pid) = s.rc := Finset.erase_insert hnew
    have hnone : ¬0 < (RefcountTable.pids s.rc tableID).card := by
      rw [pids_pos_iff]
      rintro ⟨p, hp⟩
      exact not_mem_rc h hout hp
    obtain ⟨hrules, hlengths⟩ := h.absent tableID hout
    unfold releaseBinary RefcountTable.release
    dsimp only
    rw [hrc, if_neg hnone]
    unfold evict
    dsimp only
    rw [Finset.erase_insert hout, if_pos rfl, if_pos rfl, del_put_of_find?_eq_none hrules,
      del_put_of_find?_eq_none hlengths]

theorem Sound.abandon_eq (h : s.Sound) (hout : tableID ∉ s.installed) :
    abandon { s with rc := insert (tableID, pid) s.rc, inflight := insert tableID s.inflight } tableID pid = s := by
  have hrc : (insert (tableID, pid) s.rc).erase (tableID, pid) = s.rc :=
    Finset.erase_insert (not_mem_rc h hout)
  have hfree : (insert tableID s.inflight).erase tableID = s.inflight :=
    Finset.erase_insert (by rw [h.idle]; exact Finset.notMem_empty _)
  unfold abandon endInstall RefcountTable.release
  dsimp only
  rw [hrc, hfree]
  rfl

theorem Sound.acquireBinary (h : s.Sound) (buildID : Option BuildID) (pid : UInt32) {build : Build}
    (hfails : build.fails ≠ some .writeLength) :
    (∃ err, s.acquireBinary buildID pid build = some (s, .error err)) ∨ ∃ s' id compiled, buildID = some id ∧
        s.acquireBinary buildID pid build = some (s', .ok (tableIDForBuildID id, compiled)) ∧
        Acquired s (tableIDForBuildID id) pid s' := by
  cases buildID with
  | none => exact .inl ⟨_, rfl⟩
  | some id =>
    unfold TableStore.acquireBinary RefcountTable.acquire
    dsimp only
    split
    · next hin => exact .inr ⟨_, id, _, rfl, rfl, h.acquired_installed hin⟩
    · next hout =>
      rw [if_neg (by rw [h.idle]; exact Finset.notMem_empty _)]
      split
      · refine .inl ⟨.ehcompile, ?_⟩
        rw [h.abandon_eq hout]
      · next entries _ =>
        obtain ⟨hbad, hgood⟩ := populateCFI_effect hfails
          (Prod.mk.eta (p := s.tables.populateCFI (tableIDForBuildID id) entries build.fails)).symm
        split
        · next err herr =>
          refine .inl ⟨.populateCFI err, ?_⟩
          rw [hbad (by rw [herr]; nofun)]
          exact congrArg (fun s => some (s, _)) (h.abandon_eq hout)
        · next hok =>
          refine .inr ⟨_, id, _, rfl, rfl, ?_⟩
          have hfree : (insert (tableIDForBuildID id) s.inflight).erase (tableIDForBuildID id) = s.inflight :=
            Finset.erase_insert (by rw [h.idle]; exact Finset.notMem_empty _)
          rw [hgood hok]
          unfold endInstall
          dsimp only
          rw [hfree]
          exact h.acquired_built hout entries

/-- A reference that is there is dropped without an error, and the table goes with the last one. -/
theorem Sound.releaseBinary (h : s.Sound) (hin : (tableID, pid) ∈ s.rc) :
    ∃ s', s.releaseBinary tableID pid = (s', none) ∧ s'.Sound ∧
      s'.rc = s.rc.erase (tableID, pid) ∧ s.tables.SameMappings s'.tables := by
  have hinstalled : tableID ∈ s.installed := (h.installed tableID).mpr ⟨pid, hin⟩
  have hothers : ∀ t, t ≠ tableID → ((∃ p, (t, p) ∈ s.rc.erase (tableID, pid)) ↔ ∃ p, (t, p) ∈ s.rc) := by
    intro t ht
    constructor
    · rintro ⟨p, hp⟩
      exact ⟨p, Finset.mem_of_mem_erase hp⟩
    · rintro ⟨p, hp⟩
      exact ⟨p, Finset.mem_erase.mpr ⟨fun heq => ht (congrArg Prod.fst heq), hp⟩⟩
  unfold TableStore.releaseBinary RefcountTable.release
  dsimp only
  split
  · next hpos =>
    refine ⟨_, rfl, ⟨h.idle, ?_, h.present, h.absent⟩, rfl, rfl, rfl⟩
    intro t
    by_cases ht : t = tableID
    · subst ht
      exact ⟨fun _ => (pids_pos_iff _).mp hpos, fun _ => hinstalled⟩
    · rw [h.installed]
      exact (hothers t ht).symm
  · next hzero =>
    obtain ⟨rows, hrules, hlengths⟩ := h.present tableID hinstalled
    rw [hrules, hlengths, if_neg (some_ne_none _), if_neg (some_ne_none _)]
    have hsame : ∀ t, t ≠ tableID → s.tables.SameAt (s.evict tableID true true).tables t :=
      fun t ht => ⟨find?_del_of_ne _ ht, find?_del_of_ne _ ht⟩
    refine ⟨_, rfl, ⟨h.idle, ?_, ?_, ?_⟩, rfl, rfl, rfl⟩
    · intro t
      by_cases ht : t = tableID
      · subst ht
        refine ⟨fun hmem => absurd rfl (Finset.mem_erase.mp hmem).1, fun hp => ?_⟩
        exact absurd ((pids_pos_iff _).mpr hp) hzero
      · refine Iff.trans ?_ (hothers t ht).symm
        rw [← h.installed]
        exact ⟨Finset.mem_of_mem_erase, fun hmem => Finset.mem_erase.mpr ⟨ht, hmem⟩⟩
    · intro t ht
      obtain ⟨hne, ht⟩ := Finset.mem_erase.mp ht
      exact (h.present t ht).of_sameAt (hsame t hne)
    · intro t ht
      by_cases hne : t = tableID
      · subst hne
        exact ⟨find?_del_self _ _, find?_del_self _ _⟩
      · refine (h.absent t fun hmem => ht ?_).of_sameAt (hsame t hne)
        exact Finset.mem_erase.mpr ⟨hne, hmem⟩

theorem Sound.detachLoop {order : List UInt64} (h : s.Sound) (hnodup : order.Nodup)
    (hin : ∀ t ∈ order, (t, pid) ∈ s.rc) (err : Option TrackerError) :
    ∃ s', order.foldl (PIDTracker.detachStep pid) (s, err) = (s', err) ∧ s'.Sound ∧
      (∀ t p, (t, p) ∈ s'.rc ↔ (t, p) ∈ s.rc ∧ ¬(t ∈ order ∧ p = pid)) ∧
      s.tables.SameMappings s'.tables := by
  induction order generalizing s with
  | nil => exact ⟨s, rfl, h, by simp, rfl, rfl⟩
  | cons tableID order ih =>
    obtain ⟨hnot, hnodup⟩ := nodup_cons.mp hnodup
    obtain ⟨s₁, heq, h₁, hrc, hmap⟩ := h.releaseBinary (hin tableID mem_cons_self)
    have hin₁ : ∀ t ∈ order, (t, pid) ∈ s₁.rc := by
      intro t ht
      rw [hrc]
      refine Finset.mem_erase.mpr ⟨?_, hin t (mem_cons_of_mem _ ht)⟩
      rintro heq
      cases heq
      exact hnot ht
    obtain ⟨s', hfold, h', hrc', hmap'⟩ := ih h₁ hnodup hin₁
    refine ⟨s', ?_, h', ?_, hmap.trans hmap'⟩
    · rw [foldl_cons, PIDTracker.detachStep]
      dsimp only
      rw [heq, map_none, or_none]
      exact hfold
    · intro t p
      rw [hrc', hrc, Finset.mem_erase, mem_cons]
      constructor
      · rintro ⟨⟨hne, hmem⟩, hno⟩
        refine ⟨hmem, ?_⟩
        rintro ⟨rfl | ht, rfl⟩
        · exact hne rfl
        · exact hno ⟨ht, rfl⟩
      · rintro ⟨hmem, hno⟩
        refine ⟨⟨?_, hmem⟩, fun hx => hno ⟨.inr hx.1, hx.2⟩⟩
        rintro heq
        cases heq
        exact hno ⟨.inl rfl, rfl⟩

end TableStore

/-! ## The tracker -/

namespace PIDTracker

variable {s s' : PIDTracker} {pid : UInt32} {err : Option TrackerError}

def Serves (pid : UInt32) (mappings : List PIDMapping) : Prop :=
  m.pidMappings.find? pid = some mappings ∧ m.pidMappingLengths.find? pid = some (UInt32.ofNat mappings.length)

structure Balanced (s : PIDTracker) : Prop where
  store : s.store.Sound
  refs : ∀ t pid, (t, pid) ∈ s.store.rc ↔ t ∈ (s.stateOf pid).tableIDs
  served : ∀ pid, (s.stateOf pid).mappings ≠ [] → Serves s.store.tables pid (s.stateOf pid).mappings

/-- The new mappings of a process fit, and no call to the kernel fails. -/
def Fits (s : PIDTracker) (pid : UInt32) (l : Loaded) (fails : Option KernelCall) : Prop :=
  (s.stateOf pid).mappings.length + l.ranges.length ≤ maxPIDMappings ∧ fails = none

instance (s : PIDTracker) (pid : UInt32) (l : Loaded) (fails : Option KernelCall) :
    Decidable (s.Fits pid l fails) := inferInstanceAs (Decidable (_ ∧ _))

/-- What the tracker can undo: the mappings of a process are found unless its reference is new,
they can be handed to the walker, the length of a table can be written, and a process that is
detached has mappings. -/
def Contained (s : PIDTracker) : TrackerCall → Prop
  | .attach pid buildID build loaded fails =>
    build.fails ≠ some .writeLength ∧ ∀ id ∈ buildID,
      (loaded = none → tableIDForBuildID id ∉ (s.stateOf pid).tableIDs) ∧ ∀ l ∈ loaded, s.Fits pid l fails
  | .attachCompileOnly _ _ build => build.fails ≠ some .writeLength
  | .enrollWithoutCompile pid binPath buildID loaded fails buildIDCache =>
    ∀ _id ∈ (buildIDCache.find? binPath).or buildID, ∀ l ∈ loaded, s.Fits pid l fails
  | .detach pid _ => s.perPID.find? pid = none ∨ (s.stateOf pid).mappings ≠ []

instance (s : PIDTracker) : ∀ c, Decidable (s.Contained c)
  | .attach _ _ _ _ _ => inferInstanceAs (Decidable (_ ∧ _))
  | .attachCompileOnly _ _ _ => inferInstanceAs (Decidable (_ ≠ _))
  | .enrollWithoutCompile _ binPath buildID _ _ buildIDCache =>
    inferInstanceAs (Decidable (∀ _id ∈ (buildIDCache.find? binPath).or buildID, _))
  | .detach _ _ => inferInstanceAs (Decidable (_ ∨ _))

/-- The calls that the program can make: `Detach` visits each table of the process once. -/
def Callable (s : PIDTracker) : TrackerCall → Prop
  | .detach pid order =>
    s.perPID.find? pid = none ∨ order.Nodup ∧ order.toFinset = (s.stateOf pid).tableIDs
  | _ => True

theorem stateOf_put (s : PIDTracker) (store : TableStore) (pid : UInt32) (st : PIDState) (p : UInt32) :
    PIDTracker.stateOf { store := store, perPID := s.perPID.put pid st } p =
      if p = pid then st else s.stateOf p := by
  unfold stateOf
  dsimp only
  rw [find?_put]
  split <;> rfl

theorem stateOf_del (s : PIDTracker) (store : TableStore) (pid p : UInt32) :
    PIDTracker.stateOf { store := store, perPID := s.perPID.del pid } p =
      if p = pid then {} else s.stateOf p := by
  unfold stateOf
  dsimp only
  rw [find?_del]
  split <;> rfl

theorem populatePIDMappings_ok (pid : UInt32) {mappings : List PIDMapping} (hne : mappings ≠ [])
    (hle : mappings.length ≤ maxPIDMappings) :
    m.populatePIDMappings pid mappings none =
      ({ m with
         pidMappings := m.pidMappings.put pid mappings
         pidMappingLengths := m.pidMappingLengths.put pid (UInt32.ofNat mappings.length) }, none) := by
  unfold Tables.populatePIDMappings
  rw [if_neg (by rwa [length_eq_zero_iff]), if_neg (Nat.not_lt.mpr hle)]

theorem publish_balanced (s : PIDTracker) (pid : UInt32) (st : PIDState) (hstore : s.store.Sound)
    (hrefs : ∀ t p, (t, p) ∈ s.store.rc ↔ t ∈ (if p = pid then st else s.stateOf p).tableIDs)
    (hserved : ∀ p, (s.stateOf p).mappings ≠ [] → Serves s.store.tables p (s.stateOf p).mappings)
    (hne : st.mappings ≠ []) (hle : st.mappings.length ≤ maxPIDMappings) :
    ∃ s', s.publish pid st none = (s', none) ∧ s'.Balanced := by
  unfold publish
  rw [populatePIDMappings_ok _ pid hne hle]
  refine ⟨_, rfl, ⟨hstore.idle, hstore.installed, hstore.present, hstore.absent⟩, ?_, ?_⟩
  · intro t p
    rw [stateOf_put]
    exact hrefs t p
  · intro p hp
    rw [stateOf_put] at hp ⊢
    split
    · next heq =>
      subst heq
      exact ⟨find?_put_self _ _ _, find?_put_self _ _ _⟩
    · next hpid =>
      rw [if_neg hpid] at hp
      obtain ⟨hmap, hlen⟩ := hserved p hp
      exact ⟨(find?_put_of_ne _ _ hpid).trans hmap, (find?_put_of_ne _ _ hpid).trans hlen⟩

variable (l : Loaded)

namespace Balanced

def Settled (s : PIDTracker) (r : PIDTracker × Option TrackerError) : Prop :=
  r.1.Balanced ∧ (r.2 ≠ none → r.1 = s)

theorem settled_self (h : s.Balanced) (err : Option TrackerError) : Settled s (s, err) := ⟨h, fun _ => rfl⟩

theorem refs_insert (h : s.Balanced) {store : TableStore} {tableID : UInt64} {mappings : List PIDMapping}
    (hrc : store.rc = insert (tableID, pid) s.store.rc) (t : UInt64) (p : UInt32) :
    (t, p) ∈ store.rc ↔
      t ∈ (if p = pid then { mappings := mappings, tableIDs := insert tableID (s.stateOf pid).tableIDs }
        else s.stateOf p).tableIDs := by
  rw [hrc, Finset.mem_insert, h.refs, Prod.mk.injEq]
  split
  · next hp =>
    subst hp
    rw [Finset.mem_insert]
    exact or_congr_left (and_iff_left rfl)
  · next hp =>
    constructor
    · rintro (heq | hin)
      · exact absurd heq.2 hp
      · exact hin
    · exact .inr

theorem served_of_same (h : s.Balanced) {store : TableStore} (hmap : s.store.tables.SameMappings store.tables)
    (p : UInt32) (hp : (s.stateOf p).mappings ≠ []) : Serves store.tables p (s.stateOf p).mappings := by
  unfold Serves
  rw [hmap.1, hmap.2]
  exact h.served p hp

theorem length_mappings (tableID : UInt64) : (l.mappings tableID).length = l.ranges.length :=
  length_map _

theorem mappings_ne (tableID : UInt64) : l.mappings tableID ≠ [] := by
  intro h
  exact l.ranges_ne (map_eq_nil_iff.mp h)

theorem attach (h : s.Balanced) {buildID : Option BuildID} {build : Build} {loaded : Option Loaded}
    {fails : Option KernelCall} (hc : s.Contained (.attach pid buildID build loaded fails)) :
    ∃ r, s.attach pid buildID build loaded fails = some r ∧ Settled s r := by
  obtain ⟨hfails, hc⟩ := hc
  unfold PIDTracker.attach
  obtain ⟨err, heq⟩ | ⟨store, id, compiled, rfl, heq, hacq⟩ := h.store.acquireBinary buildID pid hfails
  · rw [heq]
    exact ⟨_, rfl, h.settled_self _⟩
  · rw [heq]
    obtain ⟨hnew, hfits⟩ := hc id rfl
    cases loaded with
    | none =>
      have hundo : (store.releaseBinary (tableIDForBuildID id) pid).1 = s.store :=
        hacq.undo fun hin => hnew rfl ((h.refs _ _).mp hin)
      dsimp only
      rw [hundo]
      exact ⟨_, rfl, h.settled_self _⟩
    | some l =>
      obtain ⟨hle, rfl⟩ := hfits l rfl
      obtain ⟨s', hpublish, hbalanced⟩ := publish_balanced { s with store := store } pid
        { mappings := (s.stateOf pid).mappings ++ l.mappings (tableIDForBuildID id)
          tableIDs := insert (tableIDForBuildID id) (s.stateOf pid).tableIDs }
        hacq.sound (h.refs_insert hacq.rc) (h.served_of_same hacq.mappings)
        (append_ne_nil_of_right_ne_nil _ (mappings_ne l (tableIDForBuildID id)))
        (by rw [List.length_append, length_mappings]; exact hle)
      exact ⟨(s', none), congrArg some hpublish, hbalanced, fun hne => absurd rfl hne⟩

theorem attachCompileOnly (h : s.Balanced) {buildID : Option BuildID} {build : Build}
    (hc : s.Contained (.attachCompileOnly pid buildID build)) :
    ∃ r, s.attachCompileOnly pid buildID build = some r ∧ Settled s r := by
  unfold PIDTracker.attachCompileOnly
  obtain ⟨err, heq⟩ | ⟨store, id, compiled, rfl, heq, hacq⟩ := h.store.acquireBinary buildID pid hc
  · rw [heq]
    exact ⟨_, rfl, h.settled_self _⟩
  · rw [heq]
    refine ⟨_, rfl, ⟨hacq.sound, ?_, ?_⟩, fun hne => absurd rfl hne⟩
    · intro t p
      rw [stateOf_put]
      exact h.refs_insert hacq.rc t p
    · intro p hp
      rw [stateOf_put] at hp ⊢
      split
      · next heq =>
        subst heq
        rw [if_pos rfl] at hp
        exact h.served_of_same hacq.mappings p hp
      · next hpid =>
        rw [if_neg hpid] at hp
        exact h.served_of_same hacq.mappings p hp

theorem enrollWithoutCompile (h : s.Balanced) {binPath : String} {buildID : Option BuildID}
    {loaded : Option Loaded} {fails : Option KernelCall} {buildIDCache : AssocMap String BuildID}
    (hc : s.Contained (.enrollWithoutCompile pid binPath buildID loaded fails buildIDCache)) :
    ∃ r, s.call (.enrollWithoutCompile pid binPath buildID loaded fails buildIDCache) = some r ∧ Settled s r := by
  unfold PIDTracker.call PIDTracker.enrollWithoutCompile
  dsimp only
  cases hid : (buildIDCache.find? binPath).or buildID with
  | none => exact ⟨_, rfl, h.settled_self _⟩
  | some id =>
    cases loaded with
    | none => exact ⟨_, rfl, h.settled_self _⟩
    | some l =>
      obtain ⟨hle, rfl⟩ := hc id hid l rfl
      obtain ⟨s', hpublish, hbalanced⟩ := publish_balanced s pid
        { s.stateOf pid with mappings := (s.stateOf pid).mappings ++ l.mappings (tableIDForBuildID id) }
        h.store (fun t p => by rw [h.refs]; split <;> simp_all) h.served
        (append_ne_nil_of_right_ne_nil _ (mappings_ne l (tableIDForBuildID id)))
        (by rw [List.length_append, length_mappings]; exact hle)
      refine ⟨_, rfl, ?_⟩
      dsimp only
      rw [hpublish]
      exact ⟨hbalanced, fun hne => absurd rfl hne⟩

theorem detach (h : s.Balanced) {order : List UInt64} (hc : s.Contained (.detach pid order))
    (hcall : s.Callable (.detach pid order)) : ∃ r, s.detach pid order = some r ∧ Settled s r := by
  unfold PIDTracker.detach
  cases hst : s.perPID.find? pid with
  | none => exact ⟨_, rfl, h.settled_self _⟩
  | some st =>
    have hstate : s.stateOf pid = st := by rw [stateOf, hst]; rfl
    have horder : order.Nodup ∧ order.toFinset = st.tableIDs := by
      obtain hnone | horder := hcall
      · rw [hst] at hnone
        cases hnone
      · rwa [hstate] at horder
    obtain ⟨hmap, hlen⟩ := h.served pid (hc.resolve_left (by rw [hst]; nofun))
    dsimp only
    rw [if_pos horder, hmap, hlen, if_neg nofun, if_neg nofun]
    have hsound : TableStore.Sound { s.store with tables := { s.store.tables with
        pidMappings := s.store.tables.pidMappings.del pid
        pidMappingLengths := s.store.tables.pidMappingLengths.del pid } } :=
      ⟨h.store.idle, h.store.installed, h.store.present, h.store.absent⟩
    have hin : ∀ t ∈ order, (t, pid) ∈ s.store.rc := by
      intro t ht
      rw [h.refs, hstate, ← horder.2]
      exact mem_toFinset.mpr ht
    obtain ⟨store, hfold, hstore, hrc, hsame⟩ := hsound.detachLoop horder.1 hin none
    rw [hfold]
    refine ⟨_, rfl, ⟨hstore, ?_, ?_⟩, fun hne => absurd rfl hne⟩
    · intro t p
      rw [stateOf_del, hrc]
      split
      · next hp =>
        subst hp
        refine iff_of_false ?_ (Finset.notMem_empty t)
        rintro ⟨hmem, hno⟩
        rw [h.refs, hstate, ← horder.2] at hmem
        exact hno ⟨mem_toFinset.mp hmem, rfl⟩
      · next hp =>
        rw [← h.refs]
        exact and_iff_left fun hx => hp hx.2
    · intro p hp
      rw [stateOf_del] at hp ⊢
      split
      · next hpid =>
        rw [if_pos hpid] at hp
        exact absurd rfl hp
      · next hpid =>
        rw [if_neg hpid] at hp
        obtain ⟨hmap, hlen⟩ := h.served p hp
        refine ⟨?_, ?_⟩
        · rw [hsame.1]
          exact (find?_del_of_ne _ hpid).trans hmap
        · rw [hsame.2]
          exact (find?_del_of_ne _ hpid).trans hlen

end Balanced

theorem Balanced.call (h : s.Balanced) {c : TrackerCall} (hc : s.Contained c) (hcall : s.Callable c) :
    ∃ r, s.call c = some r ∧ Balanced.Settled s r := by
  cases c with
  | attach => exact h.attach hc
  | attachCompileOnly => exact h.attachCompileOnly hc
  | enrollWithoutCompile => exact h.enrollWithoutCompile hc
  | detach => exact h.detach hc hcall

theorem callable_of_call {c : TrackerCall} {r : PIDTracker × Option TrackerError}
    (h : s.call c = some r) : s.Callable c := by
  cases c with
  | detach pid order =>
    change s.detach pid order = some r at h
    unfold PIDTracker.detach at h
    cases hst : s.perPID.find? pid with
    | none => exact .inl hst
    | some st =>
      rw [hst] at h
      obtain ⟨horder, -⟩ := ite_none_right_eq_some.mp h
      refine .inr ?_
      rw [stateOf, hst]
      exact horder
  | _ => trivial

def Records (s : PIDTracker) (pid : UInt32) (t : UInt64) : Prop :=
  ∃ st, s.perPID.find? pid = some st ∧ t ∈ st.tableIDs

theorem records_iff {t : UInt64} : s.Records pid t ↔ t ∈ (s.stateOf pid).tableIDs := by
  unfold Records stateOf
  cases s.perPID.find? pid with
  | none => simp
  | some st => simp

def step (s : PIDTracker) (c : TrackerCall) : Option PIDTracker := (s.call c).map Prod.fst

theorem balanced_init : Balanced {} :=
  { store := ⟨rfl, fun _ => ⟨nofun, nofun⟩, nofun, fun _ _ => ⟨rfl, rfl⟩⟩
    refs := fun _ _ => ⟨nofun, nofun⟩
    served := fun _ h => absurd rfl h }

theorem balanced_of_run {cs : List TrackerCall}
    (h : Run (fun s c s' => s.Contained c ∧ s.step c = some s') {} cs s) : s.Balanced := by
  refine Run.invariant (I := fun _ s => s.Balanced) balanced_init ?_ h
  rintro _ s c s' - hs ⟨hc, hstep⟩
  obtain ⟨r, hr, rfl⟩ := map_eq_some_iff.mp hstep
  obtain ⟨r', hr', hsettled⟩ := hs.call hc (callable_of_call hr)
  cases hr.symm.trans hr'
  exact hsettled.1

/-- In every run whose calls are contained, a process refers to a table if and only if its state
records it, and a table is in the maps if and only if there is such a process.  Every contained
call returns, and leaves everything as it was if it returns an error. -/
theorem references_balanced {cs : List TrackerCall}
    (h : Run (fun s c s' => s.Contained c ∧ s.step c = some s') {} cs s) :
    (∀ t pid, (t, pid) ∈ s.store.rc ↔ s.Records pid t) ∧ (∀ t, ((∃ pid, s.Records pid t) → s.store.tables.Present t) ∧
        ((¬∃ pid, s.Records pid t) → s.store.tables.Absent t)) ∧
      ∀ c, s.Contained c → s.Callable c → ∃ s' err, s.call c = some (s', err) ∧ (err ≠ none → s' = s) := by
  have hb := balanced_of_run h
  have hrefs : ∀ t pid, (t, pid) ∈ s.store.rc ↔ s.Records pid t :=
    fun t pid => (hb.refs t pid).trans records_iff.symm
  have hinstalled : ∀ t, t ∈ s.store.installed ↔ ∃ pid, s.Records pid t :=
    fun t => (hb.store.installed t).trans (exists_congr (hrefs t))
  refine ⟨hrefs, ?_, ?_⟩
  · intro t
    constructor
    · intro hrec
      exact hb.store.present t ((hinstalled t).mpr hrec)
    · intro hno
      exact hb.store.absent t fun hin => hno ((hinstalled t).mp hin)
  · intro c hc hcall
    obtain ⟨⟨s', err⟩, hr, hsettled⟩ := hb.call hc hcall
    exact ⟨s', err, hr, hsettled.2⟩

def libc : BuildID := [0xab, 0xcd]

def libcRow : CFIEntry where
  pcStart := 0
  pcEndDelta := 16
  cfaType := .sp
  fpType := .sameValue
  cfaOffset := 8
  fpOffset := 0
  raOffset := -8
  raType := .offsetCFA

def compiles : Build := { compiled := some [libcRow], fails := none }

def oneRange : Loaded where
  loadBias := 0x7000
  ranges := [(0x7000, 0x8000)]
  ranges_ne := nofun

/-- Two processes share a library, one of them by way of the lazy calls; an install that fails and
a lookup that fails come in between, and the first process goes. -/
def sharedLibrary : List TrackerCall :=
  [.attach 1 (some libc) compiles (some oneRange) none,
    .enrollWithoutCompile 2 "/usr/lib/libc.so.6" (some libc) (some oneRange) none ∅,
    .attachCompileOnly 2 (some libc) compiles,
    .attachCompileOnly 2 (some [1]) { compiled := none, fails := none },
    .attach 2 (some [2]) compiles none none,
    .detach 1 [tableIDForBuildID libc]]

theorem references_balanced_sharedLibrary :
    ∃ s : PIDTracker, Run (fun s c s' => s.Contained c ∧ s.step c = some s') {} sharedLibrary s ∧
      (tableIDForBuildID libc, 2) ∈ s.store.rc ∧ s.Records 2 (tableIDForBuildID libc) ∧
      s.store.tables.Present (tableIDForBuildID libc) ∧
      s.call (.attach 3 (some libc) compiles none none) = some (s, some (.loadMappings 3)) := by
  obtain ⟨s, hrun, hp⟩ := exists_guarded_run PIDTracker.step PIDTracker.Contained {} sharedLibrary
    (fun s => decide ((tableIDForBuildID libc, 2) ∈ s.store.rc ∧
      s.Contained (.attach 3 (some libc) compiles none none) ∧
      (s.call (.attach 3 (some libc) compiles none none)).map Prod.snd = some (some (.loadMappings 3))))
    (by decide +kernel)
  obtain ⟨hrc, hc, herr⟩ := of_decide_eq_true hp
  obtain ⟨hrefs, hmaps, hcalls⟩ := references_balanced hrun
  have hrec := (hrefs _ 2).mp hrc
  refine ⟨s, hrun, hrc, hrec, (hmaps _).1 ⟨2, hrec⟩, ?_⟩
  obtain ⟨s', err, hcall, hsame⟩ := hcalls _ hc trivial
  rw [hcall] at herr
  cases Option.some.inj herr
  rw [hcall, hsame nofun]

/-- The same library is attached twice, and the second time its mappings are not found: the state
of the process still records the table, which is gone. -/
theorem reference_lost : ∃ s : PIDTracker, Run (fun s c s' => s.step c = some s') {}
        [.attach 1 (some libc) compiles (some oneRange) none, .attach 1 (some libc) compiles none none] s ∧
      s.Records 1 (tableIDForBuildID libc) ∧ (tableIDForBuildID libc, 1) ∉ s.store.rc ∧
      s.store.tables.Absent (tableIDForBuildID libc) := by
  obtain ⟨s, hrun, hp⟩ := @exists_run _ _ PIDTracker.step {}
    [.attach 1 (some libc) compiles (some oneRange) none, .attach 1 (some libc) compiles none none]
    (fun s => decide (tableIDForBuildID libc ∈ (s.stateOf 1).tableIDs ∧ (tableIDForBuildID libc, 1) ∉ s.store.rc ∧
      s.store.tables.cfiRules.find? (tableIDForBuildID libc) = none ∧
      s.store.tables.cfiLengths.find? (tableIDForBuildID libc) = none)) (by decide +kernel)
  obtain ⟨hrec, hrc, habsent⟩ := of_decide_eq_true hp
  exact ⟨s, hrun, records_iff.mpr hrec, hrc, habsent⟩

end PIDTracker

end PerfAgent.Unwind
