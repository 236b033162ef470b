import PerfAgent.Procmap.Resolver
import PerfAgent.Lib.Machine

/-!
# Mappings that outlive their process

What was read of a process while it lived should answer lookups after it is gone.  It does, as long as
nothing drops it: an exit event drops it, and so does an mmap event for an address outside of it, and
then there is nothing left to read.  A read is lost, too, when it goes to an entry that is no longer in
the cache, or is stored over a later one.
-/

namespace PerfAgent.Procmap

namespace State

variable (s : State)

def cached (pid : UInt32) : List Mapping :=
  match (s.cache.find? pid).bind fun id => s.entries[id]? with
  | some (.holds maps) => maps.mappings
  | _ => []

/-- A read through the entry goes to the cache, or there is nothing to read any more. -/
def ReadsIntoCache (pid : UInt32) (id : Nat) : Prop :=
  match s.entries[id]? with
  | some .unread => s.cache.find? pid = some id
  | _ => True

def Keeps : Action → Prop
  | .exit pid tid => tid = pid → s.cached pid = []
  | .mmapDecide =>
    match s.observer with
    | .looked pid addr id => s.answer id addr = none → s.cached pid = []
    | _ => True
  | .sweepRead =>
    match s.warmer with
    | .entered pid id => s.ReadsIntoCache pid id
    | _ => True
  | .mmapRead =>
    match s.observer with
    | .entered pid _ id => s.ReadsIntoCache pid id
    | _ => True
  | .lookupRead =>
    match s.collector with
    | .looking pid _ id _ => s.ReadsIntoCache pid id
    | _ => True
  | .refreshStore =>
    match s.collector with
    | .refreshing pid (.holds maps) => maps.mappings = [] ∨ maps.mappings = s.lastRead pid
    | _ => True
  | _ => True

/-- A lookup of an address in what had been read when it began finds it. -/
def Survives : Prop :=
  ∀ pid addr id before, s.collector = .answering pid addr id before →
    ∀ m ∈ before, m.start ≤ addr → addr < m.limit → s.answer id addr = some m

/-! ## The invariant -/

def EntryHolds (id : Nat) (ms : List Mapping) : Prop :=
  ∃ maps : Maps, s.entries[id]? = some (.holds maps) ∧ maps.mappings = ms

def Kept (pid : UInt32) : Prop :=
  (∃ id, s.cache.find? pid = some id ∧ s.EntryHolds id (s.lastRead pid)) ∨
    ∃ maps : Maps, s.collector = .refreshing pid (.holds maps) ∧ maps.mappings = s.lastRead pid

structure Inv : Prop where
  kept : ∀ pid, s.lastRead pid ≠ [] → s.Kept pid
  looking : ∀ pid addr id before, s.collector = .looking pid addr id before → before ≠ [] → s.EntryHolds id before
  answering : ∀ pid addr id before, s.collector = .answering pid addr id before → before ≠ [] → s.EntryHolds id before

variable {s} {pid : UInt32} {id : Nat} {ms : List Mapping}

theorem cached_eq (hcache : s.cache.find? pid = some id) (hentry : s.EntryHolds id ms) : s.cached pid = ms := by
  obtain ⟨maps, hmaps, rfl⟩ := hentry
  unfold cached
  rw [hcache, Option.bind_some, hmaps]

theorem Inv.survives (h : s.Inv) : s.Survives := by
  intro pid addr id before hcollector m hm hstart hlimit
  have hne : before ≠ [] := List.ne_nil_of_mem hm
  obtain ⟨maps, hmaps, rfl⟩ := h.answering pid addr id before hcollector hne
  unfold answer
  rw [hmaps, Option.bind_some]
  exact maps.lookup_eq_some hm hstart hlimit

/-! ## One step -/

def Extends (s s' : State) : Prop :=
  ∀ (id : Nat) (maps : Maps), s.entries[id]? = some (.holds maps) → s'.entries[id]? = some (.holds maps)

theorem EntryHolds.mono {s s' : State} (h : s.EntryHolds id ms) (hle : s.Extends s') : s'.EntryHolds id ms := by
  obtain ⟨maps, hmaps, hms⟩ := h
  exact ⟨maps, hle id maps hmaps, hms⟩

theorem Inv.of_eq {s s' : State} (h : s.Inv) (hentries : s.Extends s') (hcache : s'.cache = s.cache)
    (hread : s'.lastRead = s.lastRead) (hcollector : s'.collector = s.collector) : s'.Inv where
  kept := by
    intro pid hne
    rw [hread] at hne
    rcases h.kept pid hne with ⟨id, hid, hentry⟩ | ⟨maps, hmaps, heq⟩
    · refine .inl ⟨id, hcache ▸ hid, ?_⟩
      rw [hread]
      exact hentry.mono hentries
    · refine .inr ⟨maps, hcollector ▸ hmaps, ?_⟩
      rw [hread]
      exact heq
  looking := fun pid addr id before hc hne => (h.looking pid addr id before (hcollector ▸ hc) hne).mono hentries
  answering := fun pid addr id before hc hne => (h.answering pid addr id before (hcollector ▸ hc) hne).mono hentries

theorem extends_append (s : State) (e : PidEntry) {s' : State} (h : s'.entries = s.entries ++ [e]) : s.Extends s' := by
  intro id maps hid
  rw [h, List.getElem?_append_left (List.getElem?_eq_some_iff.mp hid).1]
  exact hid

theorem entryFor_cases (s : State) (pid : UInt32) :
    (s.cache.find? pid = some (s.entryFor pid).2 ∧ (s.entryFor pid).1 = s) ∨
    (s.cache.find? pid = none ∧ (s.entryFor pid).2 = s.entries.length ∧ (s.entryFor pid).1 =
      { s with cache := s.cache.put pid s.entries.length, entries := s.entries ++ [.unread] }) := by
  unfold entryFor
  cases h : s.cache.find? pid with
  | some id => exact .inl ⟨rfl, rfl⟩
  | none => exact .inr ⟨rfl, rfl, rfl⟩

theorem Inv.entryFor (h : s.Inv) (pid : UInt32) : (s.entryFor pid).1.Inv := by
  rcases s.entryFor_cases pid with ⟨-, heq⟩ | ⟨hnone, -, heq⟩
  · rw [heq]
    exact h
  · rw [heq]
    have hle : s.Extends { s with
        cache := s.cache.put pid s.entries.length, entries := s.entries ++ [.unread] } := extends_append s .unread rfl
    refine ⟨fun p hne => ?_, ?_, ?_⟩
    · rcases h.kept p hne with ⟨id, hid, hentry⟩ | hpending
      · refine .inl ⟨id, ?_, hentry.mono hle⟩
        have hp : p ≠ pid := by
          rintro rfl
          rw [hnone] at hid
          cases hid
        exact (AssocMap.find?_put_of_ne _ _ hp).trans hid
      · exact .inr hpending
    · exact fun p addr id before hc hne => (h.looking p addr id before hc hne).mono hle
    · exact fun p addr id before hc hne => (h.answering p addr id before hc hne).mono hle

theorem Inv.invalidate (h : s.Inv) {pid : UInt32} (hcached : s.cached pid = []) : (s.invalidate pid).Inv where
  kept := by
    intro p hne
    rcases h.kept p hne with ⟨id, hid, hentry⟩ | hpending
    · refine .inl ⟨id, ?_, hentry⟩
      have hp : p ≠ pid := by
        rintro rfl
        exact hne ((cached_eq hid hentry).symm.trans hcached)
      exact (AssocMap.find?_del_of_ne _ hp).trans hid
    · exact .inr hpending
  looking := h.looking
  answering := h.answering

theorem noteRead_cases (s : State) (pid : UInt32) : (∃ maps, s.readMaps pid = .holds maps ∧ maps.mappings ≠ [] ∧
      s.noteRead pid = { s with lastRead := fun p => if p = pid then maps.mappings else s.lastRead p }) ∨
    s.noteRead pid = s := by
  unfold noteRead readMaps
  cases s.proc pid with
  | gone => exact .inr rfl
  | unreadable => exact .inr rfl
  | maps maps =>
    by_cases hempty : maps.mappings = []
    · exact .inr (if_pos hempty)
    · exact .inl ⟨maps, rfl, hempty, if_neg hempty⟩

theorem ReadsIntoCache.of_unread (h : s.ReadsIntoCache pid id) (hunread : s.entries[id]? = some .unread) :
    s.cache.find? pid = some id := by
  unfold ReadsIntoCache at h
  simp only [hunread] at h
  exact h

theorem populate_of_unread (hunread : s.entries[id]? = some .unread) :
    s.populate pid id = { s.noteRead pid with entries := s.entries.set id (s.readMaps pid) } := by
  unfold State.populate
  simp only [hunread]

theorem populate_of_ne (hunread : s.entries[id]? ≠ some .unread) : s.populate pid id = s := by
  unfold State.populate
  split
  · next h => exact absurd h hunread
  · rfl

theorem Inv.populate (h : s.Inv) {pid : UInt32} {id : Nat} (hread : s.ReadsIntoCache pid id) :
    (s.populate pid id).Inv := by
  by_cases hunread : s.entries[id]? = some .unread
  · have hcached := hread.of_unread hunread
    rw [populate_of_unread hunread]
    have hlt : id < s.entries.length := (List.getElem?_eq_some_iff.mp hunread).1
    have hle : ∀ s' : State, s'.entries = s.entries.set id (s.readMaps pid) → s.Extends s' := by
      intro s' heq id' maps hid'
      have hne : id ≠ id' := by
        rintro rfl
        rw [hunread] at hid'
        cases hid'
      rw [heq, List.getElem?_set_ne hne]
      exact hid'
    rcases s.noteRead_cases pid with ⟨maps, hmaps, hnonempty, heq⟩ | heq
    · rw [heq]
      refine ⟨fun p hne => ?_, ?_, ?_⟩
      · by_cases hp : p = pid
        · subst hp
          refine .inl ⟨id, hcached, maps, ?_, (if_pos rfl).symm⟩
          dsimp only
          rw [hmaps, List.getElem?_set_self hlt]
        · have hlast : (if p = pid then maps.mappings else s.lastRead p) = s.lastRead p := if_neg hp
          dsimp only at hne
          rw [hlast] at hne
          unfold Kept
          dsimp only
          rw [hlast]
          rcases h.kept p hne with ⟨id', hid', hentry⟩ | hpending
          · exact .inl ⟨id', hid', hentry.mono (hle _ rfl)⟩
          · exact .inr hpending
      · exact fun p addr id' before hc hne => (h.looking p addr id' before hc hne).mono (hle _ rfl)
      · exact fun p addr id' before hc hne => (h.answering p addr id' before hc hne).mono (hle _ rfl)
    · rw [heq]
      exact h.of_eq (hle _ rfl) rfl rfl rfl
  · rw [populate_of_ne hunread]
    exact h

theorem Inv.withCollector (h : s.Inv) (hidle : ∀ pid e, s.collector ≠ .refreshing pid e) (c : Collector)
    (hlooking : ∀ pid addr id before, c = .looking pid addr id before → before ≠ [] → s.EntryHolds id before)
    (hanswering : ∀ pid addr id before, c = .answering pid addr id before → before ≠ [] → s.EntryHolds id before) :
    Inv { s with collector := c } where
  kept := by
    intro pid hne
    rcases h.kept pid hne with hcached | ⟨maps, hmaps, -⟩
    · exact .inl hcached
    · exact absurd hmaps (hidle pid _)
  looking := hlooking
  answering := hanswering

theorem Inv.refresh (h : s.Inv) (hidle : s.collector = .idle) (pid : UInt32) :
    Inv { s.noteRead pid with collector := .refreshing pid (s.readMaps pid) } := by
  have hcached : ∀ p, s.lastRead p ≠ [] → ∃ id, s.cache.find? p = some id ∧ s.EntryHolds id (s.lastRead p) := by
    intro p hne
    rcases h.kept p hne with hcached | ⟨maps, hmaps, -⟩
    · exact hcached
    · rw [hidle] at hmaps
      cases hmaps
  refine ⟨fun p hne => ?_, ?_, ?_⟩
  · rcases s.noteRead_cases pid with ⟨maps, hmaps, hnonempty, heq⟩ | heq
    · unfold Kept
      rw [heq] at hne ⊢
      dsimp only at hne ⊢
      by_cases hp : p = pid
      · subst hp
        exact .inr ⟨maps, by rw [hmaps], (if_pos rfl).symm⟩
      · have hlast : (if p = pid then maps.mappings else s.lastRead p) = s.lastRead p := if_neg hp
        rw [hlast] at hne ⊢
        exact .inl (hcached p hne)
    · unfold Kept
      rw [heq] at hne ⊢
      exact .inl (hcached p hne)
  · intro p addr id before hc
    cases hc
  · intro p addr id before hc
    cases hc

theorem Inv.refreshStore (h : s.Inv) {maps : Maps} (hpending : s.collector = .refreshing pid (.holds maps))
    (hlast : maps.mappings = s.lastRead pid) :
    Inv { s with cache := s.cache.put pid s.entries.length, entries := s.entries ++ [.holds maps],
                 collector := .idle } := by
  refine ⟨fun p hne => ?_, ?_, ?_⟩
  · by_cases hp : p = pid
    · subst hp
      exact .inl ⟨s.entries.length, AssocMap.find?_put_self _ _ _, maps, List.getElem?_concat_length, hlast⟩
    · rcases h.kept p hne with ⟨id, hid, hentry⟩ | ⟨maps', hmaps', -⟩
      · refine .inl ⟨id, (AssocMap.find?_put_of_ne _ _ hp).trans hid, hentry.mono ?_⟩
        exact extends_append s (.holds maps) rfl
      · rw [hpending] at hmaps'
        cases hmaps'
        exact absurd rfl hp
  · intro p addr id before hc
    cases hc
  · intro p addr id before hc
    cases hc

theorem Inv.refreshFailed (h : s.Inv) {e : PidEntry} (hpending : s.collector = .refreshing pid e)
    (hempty : ∀ maps, e = .holds maps → maps.mappings = []) : Inv { s with collector := .idle } := by
  refine ⟨fun p hne => ?_, ?_, ?_⟩
  · rcases h.kept p hne with hcached | ⟨maps, hmaps, hlast⟩
    · exact .inl hcached
    · rw [hpending] at hmaps
      cases hmaps
      exact absurd (hlast.symm.trans (hempty maps rfl)) hne
  · intro p addr id before hc
    cases hc
  · intro p addr id before hc
    cases hc

theorem Inv.lookup (h : s.Inv) (hidle : s.collector = .idle) (pid : UInt32) (addr : UInt64) :
    Inv { (s.entryFor pid).1 with collector := .looking pid addr (s.entryFor pid).2 (s.lastRead pid) } := by
  have hcollector : (s.entryFor pid).1.collector = .idle := by
    rcases s.entryFor_cases pid with ⟨-, heq⟩ | ⟨-, -, heq⟩
    · rw [heq, hidle]
    · rw [heq]
      exact hidle
  refine (h.entryFor pid).withCollector (fun p e => by rw [hcollector]; simp) _ ?_ ?_
  · rintro p a id before hc hne
    cases hc
    rcases h.kept pid hne with ⟨id, hid, hentry⟩ | ⟨maps, hmaps, -⟩
    · rcases s.entryFor_cases pid with ⟨hfind, heq⟩ | ⟨hnone, -, -⟩
      · rw [heq]
        obtain rfl : id = (s.entryFor pid).2 := Option.some.inj (hid.symm.trans hfind)
        exact hentry
      · rw [hid] at hnone
        cases hnone
    · rw [hidle] at hmaps
      cases hmaps
  · rintro p a id before hc
    cases hc

end State

/-! ## Runs -/

open State

theorem inv_step {s : State} (h : s.Inv) (a : Action) (hkeeps : s.Keeps a) : (step s a).Inv := by
  have hself : s.Extends s := fun _ _ hid => hid
  cases a with
  | proc pid p =>
    simp only [step]
    split
    · exact h
    · exact h.of_eq hself rfl rfl rfl
  | sweep pid =>
    simp only [step]
    split
    · split
      · exact h
      · exact h.of_eq hself rfl rfl rfl
    · exact h
  | sweepEntry =>
    simp only [step]
    split
    · next pid hw => exact (h.entryFor pid).of_eq (fun _ _ hid => hid) rfl rfl rfl
    · exact h
  | sweepRead =>
    simp only [step]
    simp only [Keeps] at hkeeps
    cases hw : s.warmer with
    | entered pid id =>
      rw [hw] at hkeeps
      exact (h.populate hkeeps).of_eq (fun _ _ hid => hid) rfl rfl rfl
    | idle => exact h
    | checked pid => exact h
  | mmap pid addr =>
    simp only [step]
    split
    · exact (h.entryFor pid).of_eq (fun _ _ hid => hid) rfl rfl rfl
    · exact h
  | mmapRead =>
    simp only [step]
    simp only [Keeps] at hkeeps
    cases ho : s.observer with
    | entered pid addr id =>
      rw [ho] at hkeeps
      exact (h.populate hkeeps).of_eq (fun _ _ hid => hid) rfl rfl rfl
    | idle => exact h
    | looked pid addr id => exact h
  | mmapDecide =>
    simp only [step]
    simp only [Keeps] at hkeeps
    cases ho : s.observer with
    | looked pid addr id =>
      rw [ho] at hkeeps
      dsimp only
      split
      · exact h.of_eq hself rfl rfl rfl
      · next hnone =>
          have hcached := hkeeps (by simpa using hnone)
          exact (h.invalidate hcached).of_eq (fun _ _ hid => hid) rfl rfl rfl
    | idle => exact h
    | entered pid addr id => exact h
  | exit pid tid =>
    simp only [step]
    split
    · split
      · next htid => exact h.invalidate (hkeeps htid)
      · exact h
    · exact h
  | refresh pid =>
    simp only [step]
    split
    · next hidle => exact h.refresh hidle pid
    · exact h
  | refreshStore =>
    simp only [step]
    simp only [Keeps] at hkeeps
    cases hc : s.collector with
    | refreshing pid e =>
      cases e with
      | holds maps =>
        rw [hc] at hkeeps
        dsimp only
        split
        · next hempty => exact h.refreshFailed hc fun maps' heq => by cases heq; exact hempty
        · next hnonempty => exact h.refreshStore hc (hkeeps.resolve_left hnonempty)
      | unread => exact h.refreshFailed hc fun maps' heq => by cases heq
      | failed => exact h.refreshFailed hc fun maps' heq => by cases heq
    | idle => exact h
    | looking pid addr id before => exact h
    | answering pid addr id before => exact h
  | lookup pid addr =>
    simp only [step]
    split
    · next hidle => exact h.lookup hidle pid addr
    · exact h
  | lookupRead =>
    simp only [step]
    simp only [Keeps] at hkeeps
    cases hc : s.collector with
    | looking pid addr id before =>
      rw [hc] at hkeeps
      have hpop := h.populate hkeeps
      have hsame : (s.populate pid id).collector = .looking pid addr id before := by
        rw [← hc]
        unfold State.populate
        split
        · rcases s.noteRead_cases pid with ⟨maps, -, -, heq⟩ | heq <;> rw [heq]
        · rfl
      refine hpop.withCollector (fun p e => by rw [hsame]; simp) _ ?_ ?_
      · rintro p a i b heq
        cases heq
      · rintro p a i b heq hne
        cases heq
        exact hpop.looking _ _ _ _ hsame hne
    | idle => exact h
    | refreshing pid e => exact h
    | answering pid addr id before => exact h
  | lookupDone =>
    simp only [step]
    split
    · next hc =>
        refine h.withCollector (fun p e => by rw [hc]; simp) _ ?_ ?_
        · rintro p a i b heq
          cases heq
        · rintro p a i b heq
          cases heq
    · exact h

/-- In every run whose steps drop no mappings and lose no read, a lookup finds every address of the
mappings that were last read of the process, whether it still lives or not. -/
theorem warmed_mappings_survive (proc : UInt32 → Proc) (as : List Action)
    (h : Along step State.Keeps { proc := proc } as) : (as.foldl step { proc := proc }).Survives := by
  refine Inv.survives (Along.invariant (I := fun _ s => s.Inv) ?_ (fun _ s a hs ha => inv_step hs a ha) h)
  refine ⟨fun pid hne => absurd rfl hne, ?_, ?_⟩
  · rintro pid addr id before hc
    cases hc
  · rintro pid addr id before hc
    cases hc

def binaryText : Mapping := { path := [47, 120], start := 0x400000, limit := 0x500000 }

def onlySeven : State where
  proc := fun pid =>
    if pid = 7 then .maps ⟨[binaryText], by decide, .cons (fun _ h => by cases h) .nil⟩ else .gone

def warmedThenGone : List Action :=
  [.sweep 7, .sweepEntry, .sweepRead, .proc 7 .gone, .refresh 7, .refreshStore, .lookup 7 0x401000, .lookupRead]

/-- A process that was warmed and is gone still resolves. -/
theorem warmed_mappings_survive_gone : (warmedThenGone.foldl step onlySeven).answer 0 0x401000 = some binaryText := by
  refine warmed_mappings_survive onlySeven.proc _ ?_ 7 0x401000 0 [binaryText] rfl binaryText (.head _)
    (by decide) (by decide)
  exact ⟨trivial, trivial, rfl, trivial, trivial, .inl rfl, trivial, trivial, trivial⟩

def warmedThenExited : List Action :=
  [.sweep 7, .sweepEntry, .sweepRead, .proc 7 .gone, .exit 7 7, .refresh 7, .refreshStore, .lookup 7 0x401000,
    .lookupRead]

/-- Its mappings have been dropped. -/
theorem not_survives_exit : ¬ (warmedThenExited.foldl step onlySeven).Survives := by
  intro h
  have hanswer := h 7 0x401000 1 [binaryText] rfl binaryText (.head _) (by decide) (by decide)
  exact absurd hanswer (by decide)

end PerfAgent.Procmap
