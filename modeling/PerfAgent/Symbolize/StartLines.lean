import PerfAgent.Symbolize.Local

/-!
# Whose start line it is

The cache of start lines is keyed by the module and the distance of the function's entry from the start of the
mapping.  But only a frame that blazesym could not name has a mapping, so for the others the distance is the address
itself, and that is not the same in every process.  A frame that was named from a file has a mapping, but the
distance that is taken for it is not the one from its function's entry: it is its address in the file.

So the lines are right where neither matters: no two functions of a module have the same address in two processes,
and nothing is found at the address that is taken for the entry of a frame named from a file.
-/

namespace PerfAgent.Symbolize

open List

open Pprof (ascii FailureReason)

variable {pid : UInt32}

/-! ## What every frame keeps -/

section Frames

variable {bz : Blazesym} {env : Surroundings} {P : Frame → Prop}

theorem forall_attachModules {frames : List Frame}
    (hattach : ∀ idx f, env.modules = some idx → P f → P (attachModule idx pid f)) (h : ∀ f ∈ frames, P f) :
    ∀ f ∈ attachModules env.modules pid frames, P f := by
  unfold attachModules
  cases hidx : env.modules with
  | none => exact h
  | some idx =>
    intro g hg
    obtain ⟨f, hf, rfl⟩ := mem_map.mp hg
    exact hattach idx f hidx (h f hf)

/-- The files that a module's frames are named from: its own, or the one the store has. -/
def Surroundings.HasFile (env : Surroundings) (mod path : Name) : Prop :=
  path = mod ∨ ∃ cached buildID, env.symbols = some cached ∧ cached mod buildID = some path

section Naming

variable (hname : ∀ mod loads path f, env.loads mod = some loads → env.HasFile mod path → P f →
  P (nameFrom bz path loads mod f))
include hname

theorem forall_retryModule {frames : List Frame} (h : ∀ f ∈ frames, P f) (mod : Name) :
    ∀ f ∈ retryModule bz env frames mod, P f := by
  unfold retryModule
  cases hloads : env.loads mod with
  | none => exact h
  | some loads =>
    by_cases hfails : env.elfFails mod = true
    · simp only [if_pos hfails]
      exact h
    · simp only [if_neg hfails]
      have hnamed : ∀ f ∈ frames.map (nameFrom bz mod loads mod), P f := by
        intro g hg
        obtain ⟨f, hf, rfl⟩ := mem_map.mp hg
        exact hname mod loads mod f hloads (.inl rfl) (h f hf)
      unfold retryAgainstSymbolServer
      split
      · next cached f hcached hf =>
          split
          · exact hnamed
          · split
            · exact hnamed
            · next path hpath =>
                split
                · exact hnamed
                · intro g hg
                  obtain ⟨k, hk, rfl⟩ := mem_map.mp hg
                  exact hname mod loads path k hloads (.inr ⟨cached, _, hcached, hpath⟩) (hnamed k hk)
      · exact hnamed

theorem forall_retryAgainstModuleFiles {frames : List Frame} (h : ∀ f ∈ frames, P f) :
    ∀ f ∈ retryAgainstModuleFiles bz env frames, P f := by
  unfold retryAgainstModuleFiles
  generalize (frames.map Frame.module).dedup = mods
  induction mods generalizing frames with
  | nil => exact h
  | cons mod mods ih => exact ih (forall_retryModule hname h mod)

end Naming

theorem attachModule_startLine (idx : ModuleIndex) (pid : UInt32) (f : Frame) :
    (attachModule idx pid f).startLine = f.startLine := by
  unfold attachModule
  split
  · rfl
  · cases idx pid f.address with
    | none => rfl
    | some m =>
      by_cases hpath : m.path = []
      · simp only [if_pos hpath]
      · simp only [if_neg hpath]

theorem nameFrom_startLine (path : Name) (loads : List PtLoad) (mod : Name) (f : Frame) :
    (nameFrom bz path loads mod f).startLine = f.startLine := by
  unfold nameFrom
  split
  · cases f.virtualAddress loads with
    | none => rfl
    | some va =>
      by_cases hempty : (bz.elf path va).name = []
      · simp only [if_pos hempty]
      · simp only [if_neg hempty]
  · rfl

end Frames

/-! ## What is true -/

/-- Where addresses lie, which function an offset of a module belongs to, by its name and its entry, and the line of
an offset. -/
structure Layout where
  place : UInt32 → UInt64 → Option (Name × UInt64)
  function : Name → UInt64 → Option (Name × UInt64)
  line : Name → UInt64 → Nat

def Sym.line (s : Sym) : Nat := (s.codeInfo.map CodeInfo.line).getD 0

def Blazesym.entry (bz : Blazesym) (pid : UInt32) (a : UInt64) : UInt64 := a - (bz.process pid a).offset

def Blazesym.names (bz : Blazesym) (pid : UInt32) (a : UInt64) : Prop := (bz.process pid a).name ≠ []

/-- Blazesym's answers for the addresses of a process are those for its modules. -/
structure Blazesym.Consistent (bz : Blazesym) (L : Layout) : Prop where
  function : ∀ pid a, bz.names pid a → ∃ va entry, L.place pid a = some ((bz.process pid a).module, va) ∧
    L.function (bz.process pid a).module va = some ((bz.process pid a).name, entry) ∧
    (bz.process pid a).offset = va - entry ∧ L.place pid (bz.entry pid a) = some ((bz.process pid a).module, entry)
  line : ∀ pid a va, bz.names pid a → L.place pid a = some ((bz.process pid a).module, va) →
    (bz.process pid a).line = L.line (bz.process pid a).module va
  /-- Where it has no name it has nothing. -/
  unnamed : ∀ pid a, ¬bz.names pid a → (bz.process pid a).codeInfo = none

def Layout.StartsAt (L : Layout) (pid : UInt32) (a : UInt64) (line : Nat) : Prop :=
  ∃ module va name entry, L.place pid a = some (module, va) ∧ L.function module va = some (name, entry) ∧
    line = L.line module entry

/-- A start line is the line of the entry of the function that the address lies in. -/
def StartLineRight (L : Layout) (pid : UInt32) (f : Frame) : Prop :=
  f.reason = .none → f.startLine ≠ 0 → L.StartsAt pid f.address f.startLine

/-! ## When it goes well -/

/-- Two functions of a module that have the same address in two of the processes have the same line. -/
def NoClash (bz : Blazesym) (L : Layout) (calls : List SymbolizeCall) : Prop :=
  ∀ c ∈ calls, ∀ c' ∈ calls, ∀ a ∈ c.ips, ∀ a' ∈ c'.ips, bz.names c.pid a → bz.names c'.pid a' →
    (bz.process c.pid a).module = (bz.process c'.pid a').module → bz.entry c.pid a = bz.entry c'.pid a' →
    ∀ e e', L.place c.pid (bz.entry c.pid a) = some ((bz.process c.pid a).module, e) →
      L.place c'.pid (bz.entry c'.pid a') = some ((bz.process c'.pid a').module, e') →
      L.line (bz.process c.pid a).module e = L.line (bz.process c'.pid a').module e'

/-- An address of a call that a file can name: its mapping, and its address in the file. -/
def NamedByFile (bz : Blazesym) (c : SymbolizeCall) (a : UInt64) (m : Procmap.Mapping) (va : UInt64) : Prop :=
  ¬bz.names c.pid a ∧ (∃ idx, c.env.modules = some idx ∧ idx c.pid a = some m) ∧
  (∃ loads, c.env.loads m.path = some loads ∧ fileOffsetToVirtualAddress loads (a - m.start + m.offset) = some va) ∧
  ∃ path, c.env.HasFile m.path path ∧ (bz.elf path va).name ≠ []

/-- What is taken for the entry of a frame that was named from a file has no line, and no function of the module has
its entry where it is looked for in the cache. -/
def NothingAtBase (bz : Blazesym) (calls : List SymbolizeCall) : Prop :=
  ∀ c ∈ calls, ∀ a ∈ c.ips, ∀ m va, NamedByFile bz c a m va → (bz.process c.pid (a - va)).line = 0 ∧
    ∀ c' ∈ calls, ∀ a' ∈ c'.ips, bz.names c'.pid a' → (bz.process c'.pid a').module = m.path →
      bz.entry c'.pid a' ≠ a - va - m.start

/-! ## Where a frame comes from -/

variable {bz : Blazesym} {L : Layout} {calls : List SymbolizeCall} {c : SymbolizeCall}

variable (bz c) in
structure FromProcess (f : Frame) : Prop where
  names : bz.names c.pid f.address
  module : f.module = (bz.process c.pid f.address).module
  offset : f.offset = (bz.process c.pid f.address).offset
  mapStart : f.mapStart = 0
  line : f.line = (bz.process c.pid f.address).line

variable (bz c) in
/-- A frame that it has not named, with its mapping if there is one; a file may have named it. -/
structure FromFile (f : Frame) : Prop where
  unnamed : ¬bz.names c.pid f.address
  line : f.line = 0
  mapped : f.mapStart = 0 ∨ ∃ idx m, c.env.modules = some idx ∧ idx c.pid f.address = some m ∧ f.module = m.path ∧
    f.mapStart = m.start ∧ f.mapOff = m.offset
  named : f.reason = .none → ∃ m, NamedByFile bz c f.address m f.offset ∧ f.module = m.path ∧ f.mapStart = m.start

variable (bz c) in
structure Sourced (f : Frame) : Prop where
  address : f.address ∈ c.ips
  startLine : f.startLine = 0
  source : (f.reason = .none ∧ FromProcess bz c f) ∨ FromFile bz c f

theorem sourced_fromBlazesymSym (hbz : bz.Consistent L) {a : UInt64} (ha : a ∈ c.ips) :
    Sourced bz c (fromBlazesymSym (bz.process c.pid a) a) := by
  refine ⟨ha, rfl, ?_⟩
  by_cases hname : (bz.process c.pid a).name = []
  · right
    have hunnamed : ¬bz.names c.pid a := not_not_intro hname
    refine ⟨hunnamed, ?_, .inl rfl, ?_⟩
    · unfold fromBlazesymSym
      rw [hbz.unnamed c.pid a hunnamed]
      rfl
    · intro hreason
      have hmissing : (fromBlazesymSym (bz.process c.pid a) a).reason = .missingSymbols := if_pos hname
      rw [hmissing] at hreason
      cases hreason
  · left
    exact ⟨if_neg hname, hname, rfl, rfl, rfl, rfl⟩

theorem Sourced.attachModule {f : Frame} (h : Sourced bz c f) {idx : ModuleIndex} (hidx : c.env.modules = some idx) :
    Sourced bz c (Symbolize.attachModule idx c.pid f) := by
  unfold Symbolize.attachModule
  by_cases hskip : f.reason = .none ∨ f.module ≠ []
  · rw [if_pos hskip]
    exact h
  · rw [if_neg hskip]
    cases hm : idx c.pid f.address with
    | none => exact h
    | some m =>
      by_cases hpath : m.path = []
      · simp only [if_pos hpath]
        exact h
      · simp only [if_neg hpath]
        rcases h.source with ⟨hreason, -⟩ | hfile
        · exact absurd (.inl hreason) hskip
        · refine ⟨h.address, h.startLine, .inr ⟨hfile.unnamed, hfile.line, ?_, ?_⟩⟩
          · exact .inr ⟨idx, m, hidx, hm, rfl, rfl, rfl⟩
          · exact fun hreason => absurd (.inl hreason) hskip

theorem Sourced.nameFrom {f : Frame} (h : Sourced bz c f) {path mod : Name} {loads : List PtLoad}
    (hloads : c.env.loads mod = some loads) (hpath : c.env.HasFile mod path) :
    Sourced bz c (Symbolize.nameFrom bz path loads mod f) := by
  unfold Symbolize.nameFrom
  by_cases hunnamed : f.unnamedIn mod = true
  · rw [if_pos hunnamed]
    cases hva : f.virtualAddress loads with
    | none => exact h
    | some va =>
      by_cases hname : (bz.elf path va).name = []
      · simp only [if_pos hname]
        exact h
      · simp only [if_neg hname]
        simp only [Frame.unnamedIn, Bool.and_eq_true, decide_eq_true_eq] at hunnamed
        obtain ⟨⟨⟨⟨hreason, rfl⟩, -⟩, hstart⟩, -⟩ := hunnamed
        rcases h.source with ⟨hnone, -⟩ | hfile
        · exact absurd hnone hreason
        · obtain ⟨idx, m, hidx, hm, hmodule, hmstart, hmoff⟩ := hfile.mapped.resolve_left hstart
          refine ⟨h.address, h.startLine, .inr ⟨hfile.unnamed, hfile.line, hfile.mapped, fun _ => ⟨m, ?_⟩⟩⟩
          unfold Frame.virtualAddress at hva
          rw [hmstart, hmoff] at hva
          rw [hmodule] at hloads hpath
          exact ⟨⟨hfile.unnamed, ⟨idx, hidx, hm⟩, ⟨loads, hloads, hva⟩, path, hpath, hname⟩, hmodule, hmstart⟩
  · rw [if_neg hunnamed]
    exact h

/-! ## What the cache holds -/

variable (bz L calls) in
/-- A line is that of the entry of a function which blazesym has named, at the address of the key. -/
def EntryLine (k : StartLineKey) (line : Nat) : Prop :=
  ∃ c ∈ calls, ∃ a ∈ c.ips, bz.names c.pid a ∧ (bz.process c.pid a).module = k.module ∧
    bz.entry c.pid a = k.symOff ∧ ∃ e, L.place c.pid (bz.entry c.pid a) = some (k.module, e) ∧ line = L.line k.module e

variable (bz L calls) in
def Justified (cache : StartLineCache) : Prop :=
  ∀ k line, cache k = some line → line ≠ 0 → EntryLine bz L calls k line

theorem Justified.update {cache : StartLineCache} (h : Justified bz L calls cache) {k : StartLineKey} {line : Nat}
    (hline : line ≠ 0 → EntryLine bz L calls k line) :
    Justified bz L calls (Function.update cache k (some line)) := by
  intro k' line' hcache hne
  by_cases hk : k' = k
  · subst hk
    rw [Function.update_self] at hcache
    obtain rfl := Option.some.inj hcache
    exact hline hne
  · rw [Function.update_of_ne hk] at hcache
    exact h k' line' hcache hne

namespace FromProcess

variable {f : Frame}

theorem entry_eq (h : FromProcess bz c f) : f.entry = bz.entry c.pid f.address := by
  unfold Frame.entry Blazesym.entry
  rw [h.offset]

theorem symOff_eq (h : FromProcess bz c f) : f.startLineKey.symOff = bz.entry c.pid f.address := by
  change f.entry - f.mapStart = _
  rw [h.mapStart, UInt64.sub_zero, h.entry_eq]

theorem entryLine (h : FromProcess bz c f) (hbz : bz.Consistent L) (hc : c ∈ calls) (ha : f.address ∈ c.ips)
    (hne : (bz.process c.pid f.entry).line ≠ 0) :
    EntryLine bz L calls f.startLineKey (bz.process c.pid f.entry).line := by
  obtain ⟨va, e, -, -, -, hentry⟩ := hbz.function c.pid f.address h.names
  rw [h.entry_eq] at hne ⊢
  have hnames : bz.names c.pid (bz.entry c.pid f.address) := by
    by_contra hunnamed
    refine hne ?_
    unfold Sym.line
    rw [hbz.unnamed _ _ hunnamed]
    rfl
  -- the symbol at the entry lies in the same module
  obtain ⟨va', -, hplace, -⟩ := hbz.function c.pid _ hnames
  have hmodule : (bz.process c.pid (bz.entry c.pid f.address)).module = (bz.process c.pid f.address).module := by
    rw [hentry] at hplace
    exact (congrArg Prod.fst (Option.some.inj hplace)).symm
  have hline := hbz.line c.pid _ e hnames (hmodule ▸ hentry)
  rw [hmodule] at hline
  refine ⟨c, hc, f.address, ha, h.names, h.module.symm, h.symOff_eq.symm, e, ?_, ?_⟩
  · change _ = some (f.module, e)
    rw [h.module]
    exact hentry
  · change _ = L.line f.module e
    rw [h.module]
    exact hline

theorem startsAt (h : FromProcess bz c f) (hbz : bz.Consistent L) (hclash : NoClash bz L calls) (hc : c ∈ calls)
    (ha : f.address ∈ c.ips) {line : Nat} (hline : EntryLine bz L calls f.startLineKey line) :
    L.StartsAt c.pid f.address line := by
  obtain ⟨c', hc', a', ha', hnames', hmodule', hsymOff, e', hplace', rfl⟩ := hline
  obtain ⟨va, e, hplace, hfunction, -, hentry⟩ := hbz.function c.pid f.address h.names
  refine ⟨_, va, _, e, hplace, hfunction, ?_⟩
  have hmodule : (bz.process c'.pid a').module = (bz.process c.pid f.address).module := hmodule'.trans h.module
  rw [h.symOff_eq] at hsymOff
  change L.line f.module e' = _
  have hplace' : L.place c'.pid (bz.entry c'.pid a') = some ((bz.process c'.pid a').module, e') := by
    rw [hplace', hmodule']
  have := hclash c' hc' c hc a' ha' f.address ha hnames' h.names hmodule hsymOff e' e hplace' hentry
  rw [hmodule] at this
  rw [h.module]
  exact this

end FromProcess

namespace FromFile

variable {f : Frame}

theorem not_entryLine (h : FromFile bz c f) (hbase : NothingAtBase bz calls) (hc : c ∈ calls) (ha : f.address ∈ c.ips)
    (hreason : f.reason = .none) {line : Nat} : ¬EntryLine bz L calls f.startLineKey line := by
  rintro ⟨c', hc', a', ha', hnames', hmodule', hsymOff, -⟩
  obtain ⟨m, hnamed, hmodule, hstart⟩ := h.named hreason
  refine (hbase c hc f.address ha m f.offset hnamed).2 c' hc' a' ha' hnames' (hmodule'.trans hmodule) ?_
  rw [hsymOff, ← hstart]
  rfl

theorem entry_line (h : FromFile bz c f) (hbase : NothingAtBase bz calls) (hc : c ∈ calls) (ha : f.address ∈ c.ips)
    (hreason : f.reason = .none) : (bz.process c.pid f.entry).line = 0 := by
  obtain ⟨m, hnamed, -⟩ := h.named hreason
  exact (hbase c hc f.address ha m f.offset hnamed).1

end FromFile

/-! ## Filling them in -/

section Filling

variable (hbz : bz.Consistent L) (hclash : NoClash bz L calls) (hbase : NothingAtBase bz calls) (hc : c ∈ calls)
include hbz hclash hbase hc

theorem Sourced.startsAt {f : Frame} (h : Sourced bz c f) (hreason : f.reason = .none) {line : Nat}
    (hline : EntryLine bz L calls f.startLineKey line) : L.StartsAt c.pid f.address line := by
  rcases h.source with ⟨-, hprocess⟩ | hfile
  · exact hprocess.startsAt hbz hclash hc h.address hline
  · exact absurd hline (hfile.not_entryLine hbase hc h.address hreason)

omit hclash in
theorem Sourced.entryLine {f : Frame} (h : Sourced bz c f) (hreason : f.reason = .none)
    (hne : (bz.process c.pid f.entry).line ≠ 0) :
    EntryLine bz L calls f.startLineKey (bz.process c.pid f.entry).line := by
  rcases h.source with ⟨-, hprocess⟩ | hfile
  · exact hprocess.entryLine hbz hc h.address hne
  · exact absurd (hfile.entry_line hbase hc h.address hreason) hne

omit hclash in
theorem Sourced.entryLine_of_offset {f : Frame} (h : Sourced bz c f) (hreason : f.reason = .none) (hoffset : f.offset = 0)
    (hne : f.line ≠ 0) : EntryLine bz L calls f.startLineKey f.line := by
  have hentry : f.entry = f.address := by
    unfold Frame.entry
    rw [hoffset, UInt64.sub_zero]
  rcases h.source with ⟨-, hprocess⟩ | hfile
  · have hline : f.line = (bz.process c.pid f.entry).line := by rw [hentry, hprocess.line]
    rw [hline] at hne ⊢
    exact h.entryLine hbz hbase hc hreason hne
  · exact absurd hfile.line hne

omit hbz hclash hbase hc in
theorem Sourced.startLineRight {f : Frame} (h : Sourced bz c f) : StartLineRight L c.pid f :=
  fun _ hne => absurd h.startLine hne

variable (bz L c) in
structure Scanned (p : Frame × Option Want) : Prop where
  right : StartLineRight L c.pid p.1
  waits : ∀ w, p.2 = some w → Sourced bz c p.1 ∧ p.1.reason = .none ∧ w.key = p.1.startLineKey ∧ w.addr = p.1.entry

theorem scanFrame_spec {cache : StartLineCache} (hcache : Justified bz L calls cache) {f : Frame} (h : Sourced bz c f) :
    Justified bz L calls (scanFrame cache f).1 ∧ Scanned bz L c (scanFrame cache f).2 := by
  unfold scanFrame
  by_cases hskip : f.reason ≠ .none ∨ f.name = []
  · rw [if_pos hskip]
    exact ⟨hcache, h.startLineRight, fun w hw => by cases hw⟩
  rw [if_neg hskip]
  have hreason : f.reason = .none := not_not.mp fun hr => hskip (.inl hr)
  by_cases hover : f.offset > f.address
  · rw [if_pos hover]
    exact ⟨hcache, h.startLineRight, fun w hw => by cases hw⟩
  rw [if_neg hover]
  cases hhit : cache f.startLineKey with
  | some line =>
    refine ⟨hcache, ?_, fun w hw => by cases hw⟩
    intro _ hne
    exact h.startsAt hbz hclash hbase hc hreason (hcache _ _ hhit hne)
  | none =>
    by_cases hoffset : f.offset = 0
    · simp only [if_pos hoffset]
      have hline : f.line ≠ 0 → EntryLine bz L calls f.startLineKey f.line :=
        h.entryLine_of_offset hbz hbase hc hreason hoffset
      refine ⟨hcache.update hline, ?_, fun w hw => by cases hw⟩
      intro _ hne
      exact h.startsAt hbz hclash hbase hc hreason (hline hne)
    · simp only [if_neg hoffset]
      refine ⟨hcache, h.startLineRight, fun w hw => ?_⟩
      obtain rfl := Option.some.inj hw
      exact ⟨h, hreason, rfl, rfl⟩

theorem scanFrames_spec {cache : StartLineCache} (hcache : Justified bz L calls cache) {frames : List Frame}
    (h : ∀ f ∈ frames, Sourced bz c f) :
    Justified bz L calls (scanFrames cache frames).1 ∧ ∀ p ∈ (scanFrames cache frames).2, Scanned bz L c p := by
  induction frames generalizing cache with
  | nil => exact ⟨hcache, fun p hp => absurd hp not_mem_nil⟩
  | cons f frames ih =>
    obtain ⟨hcache, hf⟩ := scanFrame_spec hbz hclash hbase hc hcache (h f mem_cons_self)
    obtain ⟨hrest, hframes⟩ := ih hcache fun g hg => h g (mem_cons_of_mem _ hg)
    refine ⟨hrest, fun p hp => ?_⟩
    rcases mem_cons.mp hp with rfl | hp
    · exact hf
    · exact hframes p hp

theorem takeLine_spec {cache : StartLineCache} (hcache : Justified bz L calls cache) {p : Frame × Option Want}
    (h : Scanned bz L c p) :
    Justified bz L calls (takeLine bz c.pid cache p).1 ∧ StartLineRight L c.pid (takeLine bz c.pid cache p).2 := by
  obtain ⟨f, w⟩ := p
  cases w with
  | none => exact ⟨hcache, h.right⟩
  | some w =>
    obtain ⟨hf, hreason, hkey, haddr⟩ := h.waits w rfl
    change Justified bz L calls (ite ((bz.process c.pid w.addr).line = 0) _ _ : StartLineCache × Frame).1 ∧
      StartLineRight L c.pid (ite ((bz.process c.pid w.addr).line = 0) _ _ : StartLineCache × Frame).2
    by_cases hzero : (bz.process c.pid w.addr).line = 0
    · rw [if_pos hzero]
      exact ⟨hcache, h.right⟩
    · rw [if_neg hzero]
      have hline : EntryLine bz L calls w.key (bz.process c.pid w.addr).line := by
        rw [haddr] at hzero
        rw [hkey, haddr]
        exact hf.entryLine hbz hbase hc hreason hzero
      refine ⟨hcache.update fun _ => hline, ?_⟩
      intro _ _
      rw [hkey] at hline
      exact hf.startsAt hbz hclash hbase hc hreason hline

theorem takeLines_spec {cache : StartLineCache} (hcache : Justified bz L calls cache) {ps : List (Frame × Option Want)}
    (h : ∀ p ∈ ps, Scanned bz L c p) :
    Justified bz L calls (takeLines bz c.pid cache ps).1 ∧
    ∀ f ∈ (takeLines bz c.pid cache ps).2, StartLineRight L c.pid f := by
  induction ps generalizing cache with
  | nil => exact ⟨hcache, fun f hf => absurd hf not_mem_nil⟩
  | cons p ps ih =>
    obtain ⟨hcache, hp⟩ := takeLine_spec hbz hclash hbase hc hcache (h p mem_cons_self)
    obtain ⟨hrest, hframes⟩ := ih hcache fun q hq => h q (mem_cons_of_mem _ hq)
    refine ⟨hrest, fun f hf => ?_⟩
    rcases mem_cons.mp hf with rfl | hf
    · exact hp
    · exact hframes f hf

theorem fillStartLines_spec {cache : StartLineCache} (hcache : Justified bz L calls cache) {frames : List Frame}
    (h : ∀ f ∈ frames, Sourced bz c f) :
    Justified bz L calls (fillStartLines bz c.env c.pid cache frames).1 ∧
    ∀ f ∈ (fillStartLines bz c.env c.pid cache frames).2, StartLineRight L c.pid f := by
  obtain ⟨hscan, hscanned⟩ := scanFrames_spec hbz hclash hbase hc hcache h
  unfold fillStartLines
  by_cases hfail : c.env.linesFail = true
  · simp only [if_pos hfail]
    refine ⟨hscan, fun f hf => ?_⟩
    obtain ⟨p, hp, rfl⟩ := mem_map.mp hf
    exact (hscanned p hp).right
  · simp only [if_neg hfail]
    exact takeLines_spec hbz hclash hbase hc hscan hscanned

theorem symbolizeProcess_spec {cache : StartLineCache} (hcache : Justified bz L calls cache) :
    Justified bz L calls (symbolizeProcess bz c.env cache c.pid c.ips).1 ∧
    ∀ f ∈ (symbolizeProcess bz c.env cache c.pid c.ips).2, StartLineRight L c.pid f := by
  unfold symbolizeProcess
  by_cases hips : c.ips = []
  · rw [if_pos hips]
    exact ⟨hcache, fun f hf => absurd hf not_mem_nil⟩
  rw [if_neg hips]
  by_cases hfail : c.env.batchFails = true
  · rw [if_pos hfail]
    -- no start line is filled in, whoever has named the frames
    have hzero : ∀ f ∈ retryAgainstModuleFiles bz c.env
        (attachModules c.env.modules c.pid (rawUserAddrFrames c.ips)), f.startLine = 0 := by
      refine forall_retryAgainstModuleFiles (fun _ _ _ f _ _ hf => (nameFrom_startLine _ _ _ f).trans hf) ?_
      refine forall_attachModules (fun _ f _ hf => (attachModule_startLine _ _ f).trans hf) ?_
      intro f hf
      obtain ⟨a, -, rfl⟩ := mem_map.mp hf
      rfl
    exact ⟨hcache, fun f hf _ hne => absurd (hzero f hf) hne⟩
  · rw [if_neg hfail]
    refine fillStartLines_spec hbz hclash hbase hc hcache ?_
    refine forall_retryAgainstModuleFiles (fun _ _ _ _ hloads hpath hf => hf.nameFrom hloads hpath) ?_
    refine forall_attachModules (fun _ _ hidx hf => hf.attachModule hidx) ?_
    intro f hf
    obtain ⟨a, ha, rfl⟩ := mem_map.mp hf
    exact sourced_fromBlazesymSym hbz ha

end Filling

/-! ## Runs -/

def StartLinesRight (L : Layout) (calls : List SymbolizeCall) (returned : List (List Frame)) : Prop :=
  List.Forall₂ (fun c frames => ∀ f ∈ frames, StartLineRight L c.pid f) calls returned

theorem symbolizeCalls_spec (hbz : bz.Consistent L) (hclash : NoClash bz L calls) (hbase : NothingAtBase bz calls)
    {cs : List SymbolizeCall} (hcs : cs ⊆ calls) {cache : StartLineCache} (hcache : Justified bz L calls cache) :
    StartLinesRight L cs (symbolizeCalls bz cache cs).2 := by
  induction cs generalizing cache with
  | nil => exact .nil
  | cons c cs ih =>
    obtain ⟨hcache, hframes⟩ := symbolizeProcess_spec hbz hclash hbase (hcs mem_cons_self) hcache
    exact .cons hframes (ih (fun c' hc' => hcs (mem_cons_of_mem _ hc')) hcache)

/-- The start lines are those of the frames' functions, whichever way the frames were named, if no two functions with
different lines have one address in two processes, and nothing is at what is taken for the entry of a frame that was
named from a file. -/
theorem startLines_right (hbz : bz.Consistent L) (hclash : NoClash bz L calls) (hbase : NothingAtBase bz calls) :
    StartLinesRight L calls (symbolizeCalls bz (fun _ => none) calls).2 :=
  symbolizeCalls_spec hbz hclash hbase (List.Subset.refl _) fun _ _ hnone => by cases hnone

/-! ## One library in two processes -/

def libName : Name := ascii "lib"

variable (va : UInt64)

def libFunction : Option (Name × UInt64) :=
  if 0x100 ≤ va ∧ va < 0x200 then some (ascii "g", 0x100)
  else if 0x1100 ≤ va ∧ va < 0x1200 then some (ascii "f", 0x1100)
  else none

def libLine : Nat :=
  if va = 0x100 then 20 else if va < 0x200 then 21 else if va = 0x1100 then 10 else 11

def libLayout (base : UInt32 → UInt64) : Layout where
  place pid a := (libFunction (a - base pid)).map fun _ => (libName, a - base pid)
  function _ := libFunction
  line _ := libLine

def libSymbols (base : UInt32 → UInt64) : Blazesym where
  process pid a :=
    match libFunction (a - base pid) with
    | none => {}
    | some (name, entry) =>
      { name, module := libName, offset := a - base pid - entry, codeInfo := some { line := libLine (a - base pid) } }
  elf _ _ := {}

theorem libFunction_entry {va entry : UInt64} {name : Name} (h : libFunction va = some (name, entry)) :
    name ≠ [] ∧ libFunction entry = some (name, entry) := by
  unfold libFunction at h
  by_cases hg : 0x100 ≤ va ∧ va < 0x200
  · rw [if_pos hg] at h
    cases h
    exact ⟨by decide, by decide⟩
  · rw [if_neg hg] at h
    by_cases hf : 0x1100 ≤ va ∧ va < 0x1200
    · rw [if_pos hf] at h
      cases h
      exact ⟨by decide, by decide⟩
    · rw [if_neg hf] at h
      cases h

variable {base : UInt32 → UInt64}

theorem libSymbols_process {a : UInt64} {name : Name} {entry : UInt64}
    (h : libFunction (a - base pid) = some (name, entry)) :
    (libSymbols base).process pid a =
      { name, module := libName, offset := a - base pid - entry, codeInfo := some { line := libLine (a - base pid) } } := by
  unfold libSymbols
  simp only [h]

theorem libSymbols_unnamed {a : UInt64} (h : libFunction (a - base pid) = none) :
    (libSymbols base).process pid a = {} := by
  unfold libSymbols
  simp only [h]

theorem libFunction_of_names {a : UInt64} (h : (libSymbols base).names pid a) :
    ∃ name entry, libFunction (a - base pid) = some (name, entry) := by
  cases hlib : libFunction (a - base pid) with
  | some p => exact ⟨p.1, p.2, rfl⟩
  | none =>
    refine absurd ?_ h
    rw [libSymbols_unnamed hlib]

theorem libSymbols_consistent (base : UInt32 → UInt64) : (libSymbols base).Consistent (libLayout base) where
  function := by
    intro pid a hnames
    obtain ⟨name, entry, hlib⟩ := libFunction_of_names hnames
    have hentry : a - (a - base pid - entry) - base pid = entry := by grind
    unfold Blazesym.entry
    rw [libSymbols_process hlib]
    refine ⟨a - base pid, entry, ?_, hlib, rfl, ?_⟩
    · unfold libLayout
      simp only [hlib, Option.map_some]
    · unfold libLayout
      simp only [hentry, (libFunction_entry hlib).2, Option.map_some]
  line := by
    intro pid a va hnames hplace
    obtain ⟨name, entry, hlib⟩ := libFunction_of_names hnames
    rw [libSymbols_process hlib] at hplace ⊢
    unfold libLayout at hplace
    simp only [hlib, Option.map_some] at hplace
    cases hplace
    rfl
  unnamed := by
    intro pid a hnames
    cases hlib : libFunction (a - base pid) with
    | none => rw [libSymbols_unnamed hlib]
    | some p =>
      refine absurd ?_ hnames
      unfold Blazesym.names
      rw [libSymbols_process hlib]
      exact (libFunction_entry hlib).1

def callsAt (a a' : UInt64) : List SymbolizeCall := [{ pid := 1, ips := [a] }, { pid := 2, ips := [a'] }]

def apart (pid : UInt32) : UInt64 := if pid = 1 then 0x1000 else 0x3000

theorem apart_noClash : NoClash (libSymbols apart) (libLayout apart) (callsAt 0x2110 0x3120) := by
  intro c hc c' hc' a ha a' ha' _ _ _ hentry e e' he he'
  simp only [callsAt, mem_cons, not_mem_nil, or_false] at hc hc'
  rcases hc with rfl | rfl <;> rcases hc' with rfl | rfl <;>
    (obtain rfl := mem_singleton.mp ha; obtain rfl := mem_singleton.mp ha')
  · rw [he] at he'
    cases he'
    rfl
  · exact absurd hentry (by decide)
  · exact absurd hentry (by decide)
  · rw [he] at he'
    cases he'
    rfl

theorem noFiles {a a' : UInt64} : NothingAtBase (libSymbols base) (callsAt a a') := by
  intro c hc _ _ m va hnamed
  simp only [callsAt, mem_cons, not_mem_nil, or_false] at hc
  obtain ⟨-, ⟨idx, hidx, -⟩, -⟩ := hnamed
  rcases hc with rfl | rfl <;> cases hidx

/-- The library at two bases that are further apart. -/
theorem startLines_right_apart :
    ((symbolizeCalls (libSymbols apart) (fun _ => none) (callsAt 0x2110 0x3120)).2.map fun frames =>
      frames.map Frame.startLine) = [[10], [20]] ∧
    StartLinesRight (libLayout apart) (callsAt 0x2110 0x3120)
      (symbolizeCalls (libSymbols apart) (fun _ => none) (callsAt 0x2110 0x3120)).2 :=
  ⟨by decide +kernel, startLines_right (libSymbols_consistent apart) apart_noClash noFiles⟩

def overlapping (pid : UInt32) : UInt64 := if pid = 1 then 0x1000 else 0x2000

/-- `g` as the second call returns it. -/
def frameOfG : Frame where
  address := 0x2120
  name := ascii "g"
  module := libName
  line := 21
  startLine := 10
  offset := 0x20

/-- `f` is at `0x2100` in one process, and `g` in the other: `g` is said to start where `f` does. -/
theorem not_startLines_right : ¬∀ (bz : Blazesym) (L : Layout) (calls : List SymbolizeCall), bz.Consistent L →
    StartLinesRight L calls (symbolizeCalls bz (fun _ => none) calls).2 := by
  intro hall
  have hright := hall _ _ (callsAt 0x2110 0x2120) (libSymbols_consistent overlapping)
  have hsecond := (forall₂_cons.mp (forall₂_cons.mp hright).2).1
  obtain ⟨module, va, name, entry, hplace, hfunction, hline⟩ := hsecond frameOfG (by decide +kernel) rfl (by decide)
  have hva : (libLayout overlapping).place 2 0x2120 = some (libName, 0x120) := by decide
  obtain ⟨-, rfl⟩ := Prod.mk.inj (Option.some.inj (hva.symm.trans hplace))
  have hentry : (libLayout overlapping).function libName 0x120 = some (ascii "g", 0x100) := by decide
  obtain ⟨-, rfl⟩ := Prod.mk.inj (Option.some.inj (hentry.symm.trans hfunction))
  have hten : (10 : Nat) = libLine 0x100 := hline
  exact absurd hten (by decide)

end PerfAgent.Symbolize
