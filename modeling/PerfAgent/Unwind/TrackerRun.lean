import PerfAgent.Unwind.ProcessMaps

/-!
# The tracker's loop

`PIDTracker.Run` and `AttachAllMappings` of `unwind/ehmaps/tracker.go`.  The loop remembers for each
process the paths that an MMAP2 event has attached; the rows are in the tracker, which does not know
the paths.  What is read from outside is an argument of the event: the lines of `/proc/<pid>/maps`, what
a path opens to, and what `Attach` reads of the file.

The loop only logs the errors of `Attach`.  They are kept here as they come, with the process.
-/

namespace PerfAgent.Unwind

open List

/-! ## Attaching a path -/

/-- `/proc/<pid>/maps` at one moment. -/
structure ProcMaps where
  lines : List MapsLine
  start_lt : ∀ l ∈ lines, l.start < l.limit
  ordered : lines.Pairwise fun l m => l.limit ≤ m.start

/-- What `Attach` reads of a path: the file, and the maps once more. -/
structure Opened where
  buildID : Option BuildID
  build : Build
  progs : Option (List ElfProg)
  maps : Option ProcMaps
  fails : Option KernelCall

def Opened.loaded (o : Opened) (path : FilePath) : Option Loaded :=
  (loadProcessMappings o.progs (o.maps.map ProcMaps.lines) path).toOption

def PIDTracker.attachPath (s : PIDTracker) (pid : UInt32) (path : FilePath) (o : Opened) :
    Option (PIDTracker × Option TrackerError) :=
  s.attach pid o.buildID o.build (o.loaded path) o.fails

/-- The path is no file: it begins with `[` or `//anon`. -/
def isAnonymous (path : FilePath) : Bool :=
  [91].isPrefixOf path || [47, 47, 97, 110, 111, 110].isPrefixOf path

/-- The loop of `AttachAllMappings`, with the errors so far. -/
structure AttachScan where
  tracker : PIDTracker
  seen : List FilePath
  failed : List (UInt32 × TrackerError)

def AttachScan.attach (r : AttachScan) (pid : UInt32) (path : FilePath) (o : Opened) : Option AttachScan :=
  (r.tracker.attachPath pid path o).map fun (tracker, err) =>
    { r with tracker := tracker, failed := r.failed ++ (err.map (pid, ·)).toList }

/-- One line.  `opens` is what its path opens to, if that is a regular file. -/
def AttachScan.line (pid : UInt32) (opens : MapsLine → Option Opened) (r : AttachScan) (l : MapsLine) :
    Option AttachScan :=
  match l.words with
  | [] => some r
  | path :: _ =>
    if l.exec = false then some r
    else if path = [] ∨ isAnonymous path = true then some r
    else if path ∈ r.seen then some r
    else
      let r := { r with seen := path :: r.seen }
      match opens l with
      | none => some r
      | some o => r.attach pid path o

/-- `AttachAllMappings`. -/
def attachAllMappings (s : PIDTracker) (pid : UInt32) (maps : Option ProcMaps) (opens : MapsLine → Option Opened) :
    Option (PIDTracker × List (UInt32 × TrackerError)) :=
  match maps with
  | none => some (s, [])
  | some maps =>
    (maps.lines.foldlM (AttachScan.line pid opens) ⟨s, [], []⟩).map fun r => (r.tracker, r.failed)

/-! ## The loop -/

/-- What happens to a process.  `probe` is whether `looksExecutable` can open the path, `opened` what it
opens to when the event is handled. -/
inductive TrackerEvent where
  | startup (pid : UInt32) (maps : Option ProcMaps) (opens : MapsLine → Option Opened)
  | mmap (pid : UInt32) (prot : UInt32) (filename : FilePath) (probe : Bool) (opened : Option Opened)
  | fork (pid tid : UInt32) (maps : Option ProcMaps) (opens : MapsLine → Option Opened)
  | exit (pid tid : UInt32) (order : List UInt64)

def looksExecutable (prot : UInt32) (filename : FilePath) (probe : Bool) : Bool :=
  prot &&& 4 ≠ 0 && filename ≠ [] && !isAnonymous filename && probe

structure TrackerLoop where
  tracker : PIDTracker := {}
  seen : AssocMap UInt32 (List FilePath) := ∅
  failed : List (UInt32 × TrackerError) := []

namespace TrackerLoop

def bucket (s : TrackerLoop) (pid : UInt32) : List FilePath := (s.seen.find? pid).getD []

def attachAll (s : TrackerLoop) (pid : UInt32) (maps : Option ProcMaps) (opens : MapsLine → Option Opened) :
    Option TrackerLoop :=
  (attachAllMappings s.tracker pid maps opens).map fun (tracker, failed) =>
    { s with tracker := tracker, failed := s.failed ++ failed }

/-- One event.  There is no result where `Attach` would wait, or where the tables of a process do not
come in the order given. -/
def handle (s : TrackerLoop) : TrackerEvent → Option TrackerLoop
  | .startup pid maps opens => s.attachAll pid maps opens
  | .mmap pid prot filename probe opened =>
    if looksExecutable prot filename probe then
      if filename ∈ s.bucket pid then some s
      else
        let s := { s with seen := s.seen.put pid (filename :: s.bucket pid) }
        match opened with
        | none => some s
        | some o =>
          (s.tracker.attachPath pid filename o).map fun (tracker, err) =>
            { s with tracker := tracker, failed := s.failed ++ (err.map (pid, ·)).toList }
    else some s
  | .fork pid tid maps opens => if tid ≠ pid then some s else s.attachAll pid maps opens
  | .exit pid tid order =>
    if tid ≠ pid then some s
    else (s.tracker.detach pid order).map fun r => { s with tracker := r.1, seen := s.seen.del pid }

end TrackerLoop

/-! ## The rows of a process -/

def PIDTracker.ranges (s : PIDTracker) (pid : UInt32) : List (UInt64 × UInt64) :=
  (s.stateOf pid).mappings.map fun m => (m.vmaStart, m.vmaEnd)

def Opened.Maps (o : Opened) (r : UInt64 × UInt64) : Prop :=
  ∃ maps ∈ o.maps, ∃ l ∈ maps.lines, l.exec = true ∧ (l.start, l.limit) = r

/-- `Attach` gets a table for the path and finds mappings of it. -/
def PIDTracker.Finds (s : PIDTracker) (pid : UInt32) (path : FilePath) (o : Opened) (l : Loaded) : Prop :=
  (∃ store found, s.store.acquireBinary o.buildID pid o.build = some (store, .ok found)) ∧ o.loaded path = some l

/-- None of the mappings that `Attach` finds has a row already. -/
def PIDTracker.FreshAt (s : PIDTracker) (pid : UInt32) (path : FilePath) (o : Opened) : Prop :=
  ∀ l, s.Finds pid path o l → ∀ r ∈ l.ranges, r ∉ s.ranges pid

variable {l : Loaded}

theorem Opened.loaded_eq_some {o : Opened} {path : FilePath} (h : o.loaded path = some l) :
    ∃ maps ∈ o.maps, l.ranges = (matchedLines id path maps.lines).map fun l => (l.start, l.limit) := by
  unfold Opened.loaded at h
  cases hload : loadProcessMappings o.progs (o.maps.map ProcMaps.lines) path with
  | error err =>
    rw [hload] at h
    cases h
  | ok l' =>
    rw [hload] at h
    cases h
    cases hprogs : o.progs with
    | none =>
      rw [hprogs] at hload
      cases hload
    | some progs =>
      cases hmaps : o.maps with
      | none =>
        rw [hprogs, hmaps] at hload
        unfold loadProcessMappings at hload
        dsimp only [Option.map_none] at hload
        split at hload
        · cases hload
        · cases hload
      | some maps =>
        rw [hprogs, hmaps] at hload
        obtain ⟨_, _, -, -, -, hranges⟩ := loadProcessMappings_eq_ok_iff.mp hload
        exact ⟨maps, rfl, hranges⟩

theorem ProcMaps.ranges_nodup (maps : ProcMaps) : (maps.lines.map fun l => (l.start, l.limit)).Nodup := by
  refine pairwise_map.mpr (maps.ordered.imp_of_mem fun {l m} hl _ hle heq => ?_)
  have hlt := maps.start_lt l hl
  rw [(Prod.mk.inj heq).1] at hlt
  exact UInt64.not_le.mpr hlt hle

theorem Opened.ranges_nodup {o : Opened} {path : FilePath} {l : Loaded} (h : o.loaded path = some l) :
    l.ranges.Nodup := by
  obtain ⟨maps, -, hranges⟩ := o.loaded_eq_some h
  rw [hranges]
  exact maps.ranges_nodup.sublist (filter_sublist.map _)

theorem Opened.maps_of_mem {o : Opened} {path : FilePath} (h : o.loaded path = some l) {r : UInt64 × UInt64}
    (hr : r ∈ l.ranges) : o.Maps r := by
  obtain ⟨maps, hmaps, hranges⟩ := o.loaded_eq_some h
  rw [hranges] at hr
  obtain ⟨line, hline, rfl⟩ := mem_map.mp hr
  obtain ⟨hmem, hmatch⟩ := mem_filter.mp hline
  exact ⟨maps, hmaps, line, hmem, (Bool.and_eq_true_iff.mp hmatch).1, rfl⟩

/-! ## What an attach does to the rows -/

/-- The rows of `pid` grow by mappings that are there; they stay distinct when the attach is fresh and only
then; and when it fails because there are too many, there are. -/
structure Effect (fresh : Prop) (maps : UInt64 × UInt64 → Prop) (pid : UInt32) (t t' : PIDTracker)
    (failed : List (UInt32 × TrackerError)) : Prop where
  grows : t.ranges pid <+: t'.ranges pid
  nodup_iff : (t.ranges pid).Nodup → ((t'.ranges pid).Nodup ↔ fresh)
  mem : ∀ r ∈ t'.ranges pid, r ∈ t.ranges pid ∨ maps r
  overflows : ∀ n, (pid, .populate (.tooManyMappings n)) ∈ failed → maxPIDMappings < (t'.ranges pid).length

section Effects

variable {fresh fresh' : Prop} {maps maps' : UInt64 × UInt64 → Prop} {pid q : UInt32} {t t' t'' : PIDTracker}
  {failed failed' : List (UInt32 × TrackerError)}

theorem Effect.idle (hfresh : fresh) (hranges : t'.ranges pid = t.ranges pid)
    (hfailed : ∀ n, (pid, TrackerError.populate (.tooManyMappings n)) ∉ failed) :
    Effect fresh maps pid t t' failed where
  grows := hranges ▸ prefix_refl _
  nodup_iff hnodup := iff_of_true (hranges ▸ hnodup) hfresh
  mem _ hr := .inl (hranges ▸ hr)
  overflows n hn := absurd hn (hfailed n)

theorem Effect.seq (h : Effect fresh maps pid t t' failed) (h' : Effect fresh' maps' pid t' t'' failed') :
    Effect (fresh ∧ fresh') (fun r => maps r ∨ maps' r) pid t t'' (failed ++ failed') where
  grows := h.grows.trans h'.grows
  nodup_iff hnodup := by
    constructor
    · intro hend
      have hmid := hend.sublist h'.grows.sublist
      exact ⟨(h.nodup_iff hnodup).mp hmid, (h'.nodup_iff hmid).mp hend⟩
    · rintro ⟨hfresh, hfresh'⟩
      exact (h'.nodup_iff ((h.nodup_iff hnodup).mpr hfresh)).mpr hfresh'
  mem r hr := by
    rcases h'.mem r hr with hr | hr
    · exact (h.mem r hr).imp_right .inl
    · exact .inr (.inr hr)
  overflows n hn := by
    rcases mem_append.mp hn with hn | hn
    · exact (h.overflows n hn).trans_le h'.grows.length_le
    · exact h'.overflows n hn

theorem Effect.congr (h : Effect fresh maps pid t t' failed) (hfresh : fresh ↔ fresh') (hmaps : ∀ r, maps r → maps' r) :
    Effect fresh' maps' pid t t' failed :=
  ⟨h.grows, fun hnodup => (h.nodup_iff hnodup).trans hfresh, fun r hr => (h.mem r hr).imp_right (hmaps r), h.overflows⟩

theorem ranges_of_perPID (h : t'.perPID.find? pid = t.perPID.find? pid) : t'.ranges pid = t.ranges pid := by
  unfold PIDTracker.ranges PIDTracker.stateOf
  rw [h]

theorem tooMany_of_publish {st : PIDState} {fails : Option KernelCall} {n : Nat}
    (h : (t.publish pid st fails).2 = some (.populate (.tooManyMappings n))) :
    maxPIDMappings < st.mappings.length := by
  unfold PIDTracker.publish Tables.populatePIDMappings at h
  dsimp only at h
  split at h
  · cases h
  · split at h
    · assumption
    · split at h <;> cases h

theorem ranges_publish (t : PIDTracker) (pid : UInt32) (st : PIDState) (fails : Option KernelCall) :
    (t.publish pid st fails).1.ranges pid = st.mappings.map fun m => (m.vmaStart, m.vmaEnd) := by
  unfold PIDTracker.publish PIDTracker.ranges PIDTracker.stateOf
  rw [AssocMap.find?_put_self, Option.getD_some]

theorem ranges_mappings (l : Loaded) (tableID : UInt64) :
    (l.mappings tableID).map (fun m => (m.vmaStart, m.vmaEnd)) = l.ranges := by
  rw [Loaded.mappings, map_map]
  exact map_id _

theorem Effect.add {rs : List (UInt64 × UInt64)} (hranges : t'.ranges pid = t.ranges pid ++ rs) (hrs : rs.Nodup)
    (hmaps : ∀ r ∈ rs, maps r) (hfresh : (∀ r ∈ rs, r ∉ t.ranges pid) ↔ fresh)
    (hfailed : ∀ n, (pid, TrackerError.populate (.tooManyMappings n)) ∈ failed →
      maxPIDMappings < (t'.ranges pid).length) : Effect fresh maps pid t t' failed where
  grows := hranges ▸ prefix_append _ _
  nodup_iff hnodup := by
    rw [hranges, nodup_append, ← hfresh]
    constructor
    · rintro ⟨-, -, hdisjoint⟩ r hr hold
      exact hdisjoint r hold r hr rfl
    · intro hnew
      refine ⟨hnodup, hrs, ?_⟩
      rintro r hr r' hr' rfl
      exact hnew r hr' hr
  mem r hr := (mem_append.mp (hranges ▸ hr)).imp_right (hmaps r)
  overflows := hfailed

theorem attachPath_effect (pid : UInt32) {path : FilePath} {o : Opened} {err : Option TrackerError}
    (h : t.attachPath q path o = some (t', err)) :
    Effect (q = pid → t.FreshAt pid path o) (fun r => q = pid ∧ o.Maps r) pid t t' (err.map (q, ·)).toList := by
  unfold PIDTracker.attachPath PIDTracker.attach at h
  split at h
  · cases h
  · next store e hacquire =>
    cases h
    refine .idle ?_ rfl fun n hn => ?_
    · rintro rfl l ⟨⟨store', found, hfound⟩, -⟩
      rw [hacquire] at hfound
      cases hfound
    · cases mem_singleton.mp hn
  · next store tableID new hacquire =>
    dsimp only at h
    split at h
    · next hloaded =>
      cases h
      refine .idle ?_ rfl fun n hn => ?_
      · rintro rfl l ⟨-, hl⟩
        rw [hloaded] at hl
        cases hl
      · cases mem_singleton.mp hn
    · next l hloaded =>
      have hpublish := Option.some.inj h
      have ht' := congrArg Prod.fst hpublish
      have herr := congrArg Prod.snd hpublish
      dsimp only at ht' herr
      by_cases hq : q = pid
      · subst hq
        have hranges : t'.ranges q = t.ranges q ++ l.ranges := by
          rw [← ht', ranges_publish, map_append, ranges_mappings]
          rfl
        refine .add hranges (o.ranges_nodup hloaded) (fun r hr => ⟨rfl, o.maps_of_mem hloaded hr⟩) ⟨?_, ?_⟩ ?_
        · intro hnew _ l' hl'
          obtain rfl := Option.some.inj (hloaded.symm.trans hl'.2)
          exact hnew
        · exact fun hfresh => hfresh rfl l ⟨⟨_, _, hacquire⟩, hloaded⟩
        · intro n hn
          obtain ⟨err', rfl, heq⟩ := Option.map_eq_some_iff.mp (Option.mem_toList.mp hn)
          cases heq
          have hmany := tooMany_of_publish herr
          rw [← ht', ranges_publish, length_map]
          exact hmany
      · refine .idle (fun heq => absurd heq hq) (ranges_of_perPID ?_) fun n hn => ?_
        · rw [← ht']
          exact AssocMap.find?_put_of_ne _ _ (Ne.symm hq)
        · obtain ⟨err', -, heq⟩ := Option.map_eq_some_iff.mp (Option.mem_toList.mp hn)
          exact hq (Prod.mk.inj heq).1

end Effects

namespace AttachScan

variable {pid q : UInt32} {opens : MapsLine → Option Opened} {r r' : AttachScan}

def FreshLine (pid : UInt32) (opens : MapsLine → Option Opened) (r : AttachScan) (l : MapsLine) : Prop :=
  ∀ path rest, l.words = path :: rest → l.exec = true → path ≠ [] → isAnonymous path = false →
    path ∉ r.seen → ∀ o ∈ opens l, r.tracker.FreshAt pid path o

/-- All of the attaches that the lines lead to are fresh when they are made. -/
def FreshLines (pid : UInt32) (opens : MapsLine → Option Opened) : AttachScan → List MapsLine → Prop
  | _, [] => True
  | r, l :: ls => r.FreshLine pid opens l ∧ ∀ r', r.line pid opens l = some r' → r'.FreshLines pid opens ls

theorem attach_effect (pid : UInt32) {path : FilePath} {o : Opened} (h : r.attach q path o = some r') :
    ∃ new, r'.failed = r.failed ++ new ∧
      Effect (q = pid → r.tracker.FreshAt pid path o) (fun x => q = pid ∧ o.Maps x) pid r.tracker r'.tracker new := by
  obtain ⟨⟨t, err⟩, hattach, rfl⟩ := Option.map_eq_some_iff.mp h
  exact ⟨_, rfl, attachPath_effect pid hattach⟩

theorem line_effect (pid : UInt32) {l : MapsLine} (h : r.line q opens l = some r') :
    ∃ new, r'.failed = r.failed ++ new ∧
      Effect (q = pid → r.FreshLine pid opens l) (fun x => q = pid ∧ ∃ o ∈ opens l, o.Maps x) pid r.tracker
        r'.tracker new := by
  -- a line that leads to no attach
  have hskip : (∀ path rest, l.words = path :: rest → l.exec = true → path ≠ [] → isAnonymous path = false →
      path ∉ r.seen → opens l = none) → ∀ seen, ∃ new, r.failed = r.failed ++ new ∧
        Effect (q = pid → r.FreshLine pid opens l) (fun x => q = pid ∧ ∃ o ∈ opens l, o.Maps x) pid r.tracker
          ({ r with seen := seen } : AttachScan).tracker new := by
    intro hno seen
    refine ⟨[], (append_nil _).symm, .idle ?_ rfl fun _ => not_mem_nil⟩
    intro _ path rest hwords hexec hne hfile hseen o ho
    rw [hno path rest hwords hexec hne hfile hseen] at ho
    cases ho
  unfold AttachScan.line at h
  split at h
  · next hwords =>
    cases h
    exact hskip (fun _ _ hw => by rw [hwords] at hw; cases hw) r.seen
  · next path rest hwords =>
    have hpath : ∀ {path' rest'}, l.words = path' :: rest' → path' = path := by
      intro path' rest' hw
      rw [hwords] at hw
      exact (List.cons.inj hw).1.symm
    split at h
    · next hexec =>
      cases h
      exact hskip (fun _ _ _ he => absurd (hexec.symm.trans he) Bool.false_ne_true) r.seen
    · split at h
      · next hanon =>
        cases h
        refine hskip (fun _ _ hw _ hne hfile => ?_) r.seen
        obtain rfl := hpath hw
        rcases hanon with hnil | hanon
        · exact absurd hnil hne
        · exact absurd (hfile.symm.trans hanon) Bool.false_ne_true
      · split at h
        · next hin =>
          cases h
          refine hskip (fun _ _ hw _ _ _ hout => ?_) r.seen
          obtain rfl := hpath hw
          exact absurd hin hout
        · next hexec hfile hout =>
          dsimp only at h
          split at h
          · next hopens =>
            cases h
            exact hskip (fun _ _ _ _ _ _ _ => hopens) (path :: r.seen)
          · next o hopens =>
            obtain ⟨new, hfailed, heffect⟩ := attach_effect pid h
            refine ⟨new, hfailed, heffect.congr ?_ fun x hx => ⟨hx.1, o, hopens, hx.2⟩⟩
            refine imp_congr_right fun _ => ⟨?_, ?_⟩
            · rintro hfresh path' rest' hw - - - - o' ho'
              obtain rfl := hpath hw
              obtain rfl := Option.some.inj (hopens.symm.trans ho')
              exact hfresh
            · intro hfresh
              obtain ⟨hne, hanon⟩ := not_or.mp hfile
              exact hfresh path rest hwords (Bool.not_eq_false _ ▸ hexec) hne (Bool.eq_false_iff.mpr hanon) hout o hopens

theorem lines_effect (pid : UInt32) {ls : List MapsLine} (h : ls.foldlM (AttachScan.line q opens) r = some r') :
    ∃ new, r'.failed = r.failed ++ new ∧
      Effect (q = pid → r.FreshLines pid opens ls) (fun x => q = pid ∧ ∃ l ∈ ls, ∃ o ∈ opens l, o.Maps x) pid
        r.tracker r'.tracker new := by
  induction ls generalizing r with
  | nil =>
    cases h
    exact ⟨[], (append_nil _).symm, .idle (fun _ => trivial) rfl fun _ => not_mem_nil⟩
  | cons l ls ih =>
    rw [foldlM_cons] at h
    obtain ⟨r₁, hline, hlines⟩ := Option.bind_eq_some_iff.mp h
    obtain ⟨new₁, hfailed₁, heffect₁⟩ := line_effect pid hline
    obtain ⟨new₂, hfailed₂, heffect₂⟩ := ih hlines
    refine ⟨new₁ ++ new₂, by rw [hfailed₂, hfailed₁, append_assoc], (heffect₁.seq heffect₂).congr ?_ ?_⟩
    · constructor
      · rintro ⟨hfresh₁, hfresh₂⟩ rfl
        refine ⟨hfresh₁ rfl, fun r₂ hr₂ => ?_⟩
        obtain rfl := Option.some.inj (hline.symm.trans hr₂)
        exact hfresh₂ rfl
      · exact fun hfresh => ⟨fun heq => (hfresh heq).1, fun heq => (hfresh heq).2 r₁ (heq ▸ hline)⟩
    · rintro x (⟨heq, o, ho, hx⟩ | ⟨heq, l', hl', hx⟩)
      · exact ⟨heq, l, mem_cons_self, o, ho, hx⟩
      · exact ⟨heq, l', mem_cons_of_mem _ hl', hx⟩

end AttachScan

variable {es : List TrackerEvent}

/-! ## What an event does to the rows -/

namespace TrackerEvent

/-- When the event is handled, `pid` has this executable mapping. -/
def Maps (pid : UInt32) (x : UInt64 × UInt64) : TrackerEvent → Prop
  | .startup q maps opens | .fork q _ maps opens =>
    q = pid ∧ ∃ m ∈ maps, ∃ l ∈ m.lines, ∃ o ∈ opens l, o.Maps x
  | .mmap q _ _ _ opened => q = pid ∧ ∃ o ∈ opened, o.Maps x
  | .exit .. => False

end TrackerEvent

namespace TrackerLoop

variable {pid q : UInt32} {s s' : TrackerLoop} {e : TrackerEvent}

def ranges (s : TrackerLoop) (pid : UInt32) : List (UInt64 × UInt64) := s.tracker.ranges pid

def FreshAll (s : TrackerLoop) (pid : UInt32) (maps : Option ProcMaps) (opens : MapsLine → Option Opened) : Prop :=
  ∀ m ∈ maps, AttachScan.FreshLines pid opens ⟨s.tracker, [], []⟩ m.lines

/-- No path that the event attaches to `pid` has, at that moment, a mapping among the executable ones whose
path ends in the base name that is recorded for `pid` already. -/
def Fresh (pid : UInt32) (s : TrackerLoop) : TrackerEvent → Prop
  | .startup q maps opens => q = pid → s.FreshAll pid maps opens
  | .mmap q prot filename probe opened =>
    q = pid → looksExecutable prot filename probe = true → filename ∉ s.bucket pid →
      ∀ o ∈ opened, s.tracker.FreshAt pid filename o
  | .fork q tid maps opens => q = pid → tid = q → s.FreshAll pid maps opens
  | .exit .. => True

structure Handled (pid : UInt32) (s : TrackerLoop) (e : TrackerEvent) (s' : TrackerLoop)
    (new : List (UInt32 × TrackerError)) : Prop where
  failed : s'.failed = s.failed ++ new
  effect : Effect (s.Fresh pid e) (fun x => e.Maps pid x) pid s.tracker s'.tracker new ∨
    s.Fresh pid e ∧ s'.ranges pid = [] ∧ new = []

theorem handled_idle (hfresh : s.Fresh pid e) (seen : AssocMap UInt32 (List FilePath)) :
    Handled pid s e { s with seen := seen } [] :=
  ⟨(append_nil _).symm, .inl (.idle hfresh rfl fun _ => not_mem_nil)⟩

theorem attachAll_effect (pid : UInt32) {maps : Option ProcMaps} {opens : MapsLine → Option Opened}
    (h : s.attachAll q maps opens = some s') :
    ∃ new, s'.failed = s.failed ++ new ∧ Effect (q = pid → s.FreshAll pid maps opens)
        (fun x => q = pid ∧ ∃ m ∈ maps, ∃ l ∈ m.lines, ∃ o ∈ opens l, o.Maps x) pid s.tracker s'.tracker new := by
  obtain ⟨⟨t, failed⟩, hall, rfl⟩ := Option.map_eq_some_iff.mp h
  refine ⟨failed, rfl, ?_⟩
  unfold attachAllMappings at hall
  split at hall
  · cases hall
    exact .idle (fun _ _ hm => by cases hm) rfl fun _ => not_mem_nil
  · next m =>
    obtain ⟨r, hlines, heq⟩ := Option.map_eq_some_iff.mp hall
    cases heq
    obtain ⟨new, hfailed, heffect⟩ := AttachScan.lines_effect pid hlines
    obtain rfl : r.failed = new := hfailed.trans (nil_append _)
    refine heffect.congr (imp_congr_right fun _ => ⟨?_, fun hfresh => hfresh m rfl⟩) fun x hx => ⟨hx.1, m, rfl, hx.2⟩
    rintro hfresh m' hm'
    cases hm'
    exact hfresh

theorem handle_spec (pid : UInt32) (h : s.handle e = some s') : ∃ new, Handled pid s e s' new := by
  cases e with
  | startup q maps opens =>
    obtain ⟨new, hfailed, heffect⟩ := attachAll_effect pid h
    exact ⟨new, hfailed, .inl heffect⟩
  | mmap q prot filename probe opened =>
    unfold handle at h
    dsimp only at h
    split at h
    · next hlooks =>
      split at h
      · next hin =>
        cases h
        refine ⟨[], handled_idle ?_ s.seen⟩
        rintro rfl - hout
        exact absurd hin hout
      · next hout =>
        split at h
        · cases h
          refine ⟨[], handled_idle ?_ _⟩
          rintro - - - o ho
          cases ho
        · next o =>
          obtain ⟨⟨t, err⟩, hattach, rfl⟩ := Option.map_eq_some_iff.mp h
          refine ⟨_, rfl, .inl ((attachPath_effect pid hattach).congr ⟨?_, ?_⟩ fun x hx => ⟨hx.1, o, rfl, hx.2⟩)⟩
          · rintro hfresh rfl - - o' ho'
            cases ho'
            exact hfresh rfl
          · rintro hfresh rfl
            exact hfresh rfl hlooks hout o rfl
    · next hnot =>
      cases h
      refine ⟨[], handled_idle ?_ s.seen⟩
      exact fun _ hlooks => absurd hlooks hnot
  | fork q tid maps opens =>
    unfold handle at h
    dsimp only at h
    split at h
    · next hthread =>
      cases h
      refine ⟨[], handled_idle ?_ s.seen⟩
      exact fun _ htid => absurd htid hthread
    · next hleader =>
      obtain ⟨new, hfailed, heffect⟩ := attachAll_effect pid h
      refine ⟨new, hfailed, .inl (heffect.congr ⟨fun hfresh heq _ => hfresh heq, fun hfresh heq => ?_⟩ fun _ hx => hx)⟩
      exact hfresh heq (not_not.mp hleader)
  | exit q tid order =>
    unfold handle at h
    dsimp only at h
    split at h
    · cases h
      refine ⟨[], handled_idle ?_ s.seen⟩
      exact trivial
    · obtain ⟨⟨t, err⟩, hdetach, rfl⟩ := Option.map_eq_some_iff.mp h
      refine ⟨[], (append_nil _).symm, ?_⟩
      unfold PIDTracker.detach at hdetach
      split at hdetach
      · cases hdetach
        exact .inl (.idle trivial rfl fun _ => not_mem_nil)
      · split at hdetach
        · cases hdetach
          by_cases hq : q = pid
          · subst hq
            refine .inr ⟨trivial, ?_, rfl⟩
            unfold ranges PIDTracker.ranges PIDTracker.stateOf
            dsimp only
            rw [AssocMap.find?_del_self]
            rfl
          · refine .inl (.idle trivial (ranges_of_perPID ?_) fun _ => not_mem_nil)
            exact AssocMap.find?_del_of_ne _ (Ne.symm hq)
        · cases hdetach

/-! ## Runs -/

def Reaches (es : List TrackerEvent) (s : TrackerLoop) : Prop :=
  Run (fun s e s' => s.handle e = some s') {} es s

def ReachesFresh (pid : UInt32) (es : List TrackerEvent) (s : TrackerLoop) : Prop :=
  Run (fun s e s' => s.Fresh pid e ∧ s.handle e = some s') {} es s

/-- The rows of the process are distinct all along the run, and if its executable mappings are few
enough, no attach fails for their number. -/
def Idempotent (pid : UInt32) (es : List TrackerEvent) (s : TrackerLoop) : Prop :=
  (∀ es₁ s₁, es₁ <+: es → Reaches es₁ s₁ → (s₁.ranges pid).Nodup) ∧
    ∀ E : Finset (UInt64 × UInt64), E.card ≤ maxPIDMappings → (∀ e ∈ es, ∀ x, e.Maps pid x → x ∈ E) →
      ∀ n, (pid, .populate (.tooManyMappings n)) ∉ s.failed

theorem ReachesFresh.reaches (h : ReachesFresh pid es s) : Reaches es s :=
  h.mono fun _ _ _ hstep => hstep.2

theorem ReachesFresh.nodup (h : ReachesFresh pid es s) :
    (s.ranges pid).Nodup ∧ ∀ x ∈ s.ranges pid, ∃ e ∈ es, e.Maps pid x := by
  refine Run.invariant (I := fun es s => (s.ranges pid).Nodup ∧ ∀ x ∈ s.ranges pid, ∃ e ∈ es, e.Maps pid x)
    ⟨nodup_nil, fun _ hx => by cases hx⟩ ?_ h
  rintro es s e s' - ⟨hnodup, hmem⟩ ⟨hfresh, hstep⟩
  obtain ⟨new, -, heffect | ⟨-, hnil, -⟩⟩ := handle_spec pid hstep
  · refine ⟨(heffect.nodup_iff hnodup).mpr hfresh, fun x hx => ?_⟩
    rcases heffect.mem x hx with hx | hx
    · obtain ⟨e', he', hmaps⟩ := hmem x hx
      exact ⟨e', mem_append_left _ he', hmaps⟩
    · exact ⟨e, mem_append_right _ mem_cons_self, hx⟩
  · rw [hnil]
    exact ⟨nodup_nil, fun _ hx => by cases hx⟩

/-- In such a run no attach fails for the number of rows, as there are no more than there are mappings. -/
theorem ReachesFresh.not_tooMany (h : ReachesFresh pid es s) {E : Finset (UInt64 × UInt64)}
    (hcard : E.card ≤ maxPIDMappings) (hmaps : ∀ e ∈ es, ∀ x, e.Maps pid x → x ∈ E) (n : Nat) :
    (pid, .populate (.tooManyMappings n)) ∉ s.failed := by
  induction h with
  | nil => exact not_mem_nil
  | @snoc es s s' e hrun hstep ih =>
    have hrun' : ReachesFresh pid (es ++ [e]) s' := hrun.snoc hstep
    obtain ⟨hnodup, hmem⟩ := hrun'.nodup
    have hle : (s'.ranges pid).length ≤ E.card := by
      rw [← toFinset_card_of_nodup hnodup]
      refine Finset.card_le_card fun x hx => ?_
      obtain ⟨e', he', hx⟩ := hmem x (mem_toFinset.mp hx)
      exact hmaps e' he' x hx
    have hold := ih fun e' he' => hmaps e' (mem_append_left _ he')
    obtain ⟨new, hfailed, heffect⟩ := handle_spec pid hstep.2
    rw [hfailed, mem_append, not_or]
    refine ⟨hold, fun hnew => ?_⟩
    rcases heffect with heffect | ⟨-, -, rfl⟩
    · exact Nat.not_lt.mpr (hle.trans hcard) (heffect.overflows n hnew)
    · cases hnew

/-- A run is idempotent in the rows of a process if and only if every attach to it is fresh. -/
theorem idempotent_iff_fresh {pid : UInt32} {es : List TrackerEvent} {s : TrackerLoop} (h : Reaches es s) :
    Idempotent pid es s ↔ ReachesFresh pid es s := by
  constructor
  · rintro ⟨hnodup, -⟩
    induction h with
    | nil => exact .nil
    | @snoc es s s' e hrun hstep ih =>
      have hfresh : ReachesFresh pid es s := ih fun es₁ s₁ hpre => hnodup es₁ s₁ (hpre.trans (prefix_append _ _))
      have hend : (s'.ranges pid).Nodup := hnodup _ s' (prefix_refl _) (hrun.snoc hstep)
      obtain ⟨new, -, heffect | ⟨hfresh', -, -⟩⟩ := handle_spec pid hstep
      · exact hfresh.snoc ⟨(heffect.nodup_iff hfresh.nodup.1).mp hend, hstep⟩
      · exact hfresh.snoc ⟨hfresh', hstep⟩
  · intro hfresh
    refine ⟨?_, fun E hcard hmaps n => hfresh.not_tooMany hcard hmaps n⟩
    rintro es₁ s₁ ⟨es₂, rfl⟩ hrun₁
    obtain ⟨s₂, hrun₂⟩ : ∃ s₂, ReachesFresh pid es₁ s₂ := by
      cases es₂ with
      | nil => exact ⟨s, (append_nil es₁) ▸ hfresh⟩
      | cons e es₂ =>
        obtain ⟨s₂, -, hrun₂, -, -⟩ := hfresh.split
        exact ⟨s₂, hrun₂⟩
    obtain rfl := hrun₁.unique hrun₂.reaches
    exact hrun₂.nodup.1

/-- A process with one executable mapping, of `/a`. -/
def oneMapping : ProcMaps where
  lines := [{ start := 0x1000, limit := 0x2000, exec := true, offset := 0, words := [[47, 97]] }]
  start_lt := by decide
  ordered := by decide

def openedA : Opened where
  buildID := some [1]
  build :=
    { compiled := some [{ pcStart := 0, pcEndDelta := 1, cfaType := .sp, fpType := .sameValue, cfaOffset := 8
                          fpOffset := 0, raOffset := -8, raType := .offsetCFA }]
      fails := none }
  progs := some [⟨true, true, 0, 0, fun _ => rfl⟩]
  maps := some oneMapping
  fails := none

theorem idempotent_iff_fresh_startup :
    ∃ s, Reaches [.startup 7 (some oneMapping) fun _ => some openedA] s ∧ s.ranges 7 = [(0x1000, 0x2000)] ∧
      (Idempotent 7 [.startup 7 (some oneMapping) fun _ => some openedA] s ↔
        ReachesFresh 7 [.startup 7 (some oneMapping) fun _ => some openedA] s) := by
  obtain ⟨s, hrun, hs⟩ := @exists_run _ _ handle {} [.startup 7 (some oneMapping) fun _ => some openedA]
    (fun s => decide (s.ranges 7 = [(0x1000, 0x2000)])) (by decide +kernel)
  exact ⟨s, hrun, of_decide_eq_true hs, idempotent_iff_fresh hrun⟩

/-- The mapping of `/a` is attached at the start and once more when its MMAP2 event comes. -/
theorem not_idempotent : ¬∀ (pid : UInt32) (es : List TrackerEvent) (s : TrackerLoop), Reaches es s → Idempotent pid es s := by
  intro h
  obtain ⟨s, hrun, hs⟩ := @exists_run _ _ handle {}
    [.startup 7 (some oneMapping) fun _ => some openedA, .mmap 7 4 [47, 97] true (some openedA)]
    (fun s => decide (s.ranges 7 = [(0x1000, 0x2000), (0x1000, 0x2000)])) (by decide +kernel)
  have hnodup := (h 7 _ s hrun).1 _ s (prefix_refl _) hrun
  rw [of_decide_eq_true hs] at hnodup
  exact absurd hnodup (by decide)

end TrackerLoop

end PerfAgent.Unwind
