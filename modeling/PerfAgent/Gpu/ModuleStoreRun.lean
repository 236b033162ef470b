import PerfAgent.Gpu.ModuleStoreInvariant

/-!
# The module store under concurrent calls

Any number of threads offer modules and ask for them.  A `Put` whose module is not held parses
it between its two critical sections, and others may store the same module in the meantime.

Recency is what the store's documentation says: every call that finds its module held
refreshes it, `Has` included, and so does the `Put` that stores it.  A `Put` that finds its
module held moves no counter.
-/

namespace PerfAgent.Gpu

open List

inductive Touch where
  | put
  | resolve
  | has
  | functionName
deriving DecidableEq

/-- How a `Put` ended. -/
inductive PutOutcome where
  | held
  | stored (cls : ModuleClass)
deriving DecidableEq

/-- The store, the calls of `Put` that are parsing, and the record of what happened, newest
first: which modules were refreshed, which were dropped and after what, and how the calls of
`Put` ended. -/
structure SharedStore where
  store : ModuleStore
  parsing : List (Nat × List UInt8) := []
  touches : List (Nat × Touch) := []
  evictions : List (Eviction × List (Nat × Touch)) := []
  outcomes : List PutOutcome := []

namespace SharedStore

inductive Action where
  | /-- `Put` looks whether the module is held. -/ put (crc : Nat) (b : List UInt8)
  | /-- `Put` looks again, and stores it. -/ putParsed (i : Nat)
  | resolve (crc functionIndex pcOffset : Nat)
  | has (crc : Nat)
  | functionName (crc functionIndex : Nat)
deriving DecidableEq

def new (capacity maxBytes : Int) : SharedStore where
  store := newModuleStore capacity maxBytes

/-- The record of touches after a call that finds the module or does not. -/
def touched (s : SharedStore) (crc : Nat) (t : Touch) : List (Nat × Touch) :=
  if (s.store.byCRC.find? crc).isSome then (crc, t) :: s.touches else s.touches

/-- The second section of a `Put`. -/
def finish (parse : List UInt8 → Except String Cubin) (s : SharedStore) (i crc : Nat) (b : List UInt8) : SharedStore :=
  let r := s.store.putParsed crc b (parse b)
  let touches := (crc, .put) :: s.touches
  { store := r.1.1
    parsing := s.parsing.eraseIdx i
    touches := touches
    evictions := r.1.2.map (·, touches) ++ s.evictions
    outcomes :=
      (if (s.store.byCRC.find? crc).isSome then .held
        else .stored (ModuleStore.classify (parse b))) :: s.outcomes }

def step (parse : List UInt8 → Except String Cubin) (s : SharedStore) : Action → Option SharedStore
  | .put crc b =>
    match s.store.putHeld crc with
    | some (store, _) =>
      some { s with
        store := store
        touches := (crc, .put) :: s.touches
        outcomes := .held :: s.outcomes }
    | none => some { s with parsing := (crc, b) :: s.parsing }
  | .putParsed i => s.parsing[i]?.map fun p => s.finish parse i p.1 p.2
  | .resolve crc functionIndex pcOffset =>
    some { s with
      store := (s.store.resolve crc functionIndex pcOffset).1
      touches := s.touched crc .resolve }
  | .has crc => some { s with store := (s.store.has crc).1, touches := s.touched crc .has }
  | .functionName crc functionIndex =>
    some { s with
      store := (s.store.functionName crc functionIndex).1
      touches := s.touched crc .functionName }

def Action.isPut : Action → Bool
  | .put _ _ => true
  | _ => false

def Action.isResolve : Action → Bool
  | .resolve _ _ _ => true
  | _ => false

end SharedStore

variable (st : ModuleStoreStats)

def ModuleStoreStats.ofClass : ModuleClass → Nat
  | .withLineInfo => st.modulesWithLineInfo
  | .withoutLineInfo => st.modulesWithoutLineInfo
  | .damagedLineInfo => st.modulesDamagedLineInfo
  | .unparseable => st.modulesUnparseable

namespace SharedStore

open ModuleStore

/-- The representation invariant of the store, and what the counters say about the run `as`:
* the map and the list hold the same modules, each once, within both bounds;
* the byte count and the counters of what was stored and dropped are right;
* every `Put` so far is parsing or has ended in one way, and if it stored its module it is
  counted in one class; every `Resolve` is counted once;
* every module dropped was the least recently touched one. -/
structure Consistent (as : List Action) (s : SharedStore) : Prop where
  rep : s.store.Rep
  once : s.store.crcs.Nodup
  bounded : s.store.Bounded
  puts : as.countP Action.isPut = s.parsing.length + s.outcomes.length
  stored : s.store.stats.modulesStored = s.store.stats.modulesClassified
  classes : ∀ cls, s.store.stats.ofClass cls = s.outcomes.count (.stored cls)
  resolves : as.countP Action.isResolve = s.store.stats.resolveTotal
  recency : ByRecency (s.touches.map Prod.fst) s.store.crcs
  evictions : ∀ p ∈ s.evictions, LeastRecent (p.2.map Prod.fst) p.1

variable {parse : List UInt8 → Except String Cubin} {s s' : SharedStore} {as : List Action}
  {a : Action} {crc : Nat} {e : ModuleEntry}

theorem consistent_new (capacity maxBytes : Int) : Consistent [] (new capacity maxBytes) where
  rep := rep_new capacity maxBytes
  once := nodup_nil
  bounded := (rep_new capacity maxBytes).bounded_of_empty rfl
  puts := rfl
  stored := rfl
  classes cls := by cases cls <;> rfl
  resolves := rfl
  recency := .nil _
  evictions := nofun

theorem resolveTotal_answered (r : SrcStatus) : (st.answered r).resolveTotal = st.resolveTotal + 1 := by
  cases r <;> simp only [ModuleStoreStats.answered, ModuleStoreStats.resolveTotal] <;> omega

theorem ofClass_countClass (cls c : ModuleClass) :
    (countClass st cls).ofClass c = st.ofClass c + if c = cls then 1 else 0 := by
  cases cls <;> cases c <;> rfl

/-! ## Calls that only look -/

def refresh (s : ModuleStore) (crc : Nat) : ModuleStore :=
  match s.byCRC.find? crc with
  | none => s
  | some e => s.touch e

theorem has_eq (s : ModuleStore) (crc : Nat) : (s.has crc).1 = refresh s crc := by
  unfold ModuleStore.has refresh
  cases s.byCRC.find? crc <;> rfl

theorem functionName_eq (s : ModuleStore) (crc functionIndex : Nat) :
    (s.functionName crc functionIndex).1 = refresh s crc := by
  unfold ModuleStore.functionName refresh
  cases s.byCRC.find? crc <;> rfl

theorem resolve_eq (s : ModuleStore) (crc functionIndex pcOffset : Nat) :
    (s.resolve crc functionIndex pcOffset).1 = { refresh s crc with
      stats := s.stats.answered (s.resolve crc functionIndex pcOffset).2.status } := by
  unfold ModuleStore.resolve refresh
  cases s.byCRC.find? crc <;> rfl

theorem Consistent.refresh (h : Consistent as s) (crc : Nat) (t : Touch) :
    (refresh s.store crc).Rep ∧ (refresh s.store crc).Bounded ∧ (refresh s.store crc).stats = s.store.stats ∧
      ByRecency ((s.touched crc t).map Prod.fst) (refresh s.store crc).crcs := by
  unfold SharedStore.refresh touched
  cases hfind : s.store.byCRC.find? crc with
  | none => exact ⟨h.rep, h.bounded, rfl, h.recency⟩
  | some e =>
    exact ⟨h.rep.touch hfind, ⟨h.bounded.live, h.bounded.liveBytes⟩, rfl, h.rep.touch_recency hfind h.recency⟩

theorem Consistent.look (h : Consistent as s) (crc : Nat) (t : Touch) (ha : a.isPut = false)
    (ha' : a.isResolve = false) :
    Consistent (as ++ [a]) { s with store := SharedStore.refresh s.store crc, touches := s.touched crc t } := by
  obtain ⟨hrep, hbounded, hstats, hrec⟩ := h.refresh crc t
  refine ⟨hrep, hrep.crcs_nodup, hbounded, ?_, ?_, ?_, ?_, hrec, h.evictions⟩
  · rw [countP_append, countP_singleton, ha]
    exact h.puts
  · rw [hstats]
    exact h.stored
  · rw [hstats]
    exact h.classes
  · rw [hstats, countP_append, countP_singleton, ha']
    exact h.resolves

theorem Consistent.resolve (h : Consistent as s) (crc functionIndex pcOffset : Nat) :
    Consistent (as ++ [.resolve crc functionIndex pcOffset])
      { s with
        store := (s.store.resolve crc functionIndex pcOffset).1
        touches := s.touched crc .resolve } := by
  obtain ⟨hrep, hbounded, hstats, hrec⟩ := h.refresh crc .resolve
  rw [resolve_eq]
  generalize (s.store.resolve crc functionIndex pcOffset).2.status = r
  have hans : ∃ w x y z, s.store.stats.answered r = { s.store.stats with
      resolveResolved := w, resolveNoModule := x, resolveNoLineInfo := y, resolveUnmapped := z } := by
    cases r <;> exact ⟨_, _, _, _, rfl⟩
  have hrep' : ({ SharedStore.refresh s.store crc with
      stats := s.store.stats.answered r } : ModuleStore).Rep := by
    obtain ⟨w, x, y, z, heq⟩ := hans
    refine ⟨hrep.same, hrep.elems_nodup, hrep.elems_lt, hrep.bytes, ?_, ?_⟩
    · rw [heq, ← hstats]
      exact hrep.stored
    · rw [heq, ← hstats]
      exact hrep.evicted
  refine ⟨hrep', hrep'.crcs_nodup, ⟨hbounded.live, hbounded.liveBytes⟩, ?_, ?_, fun cls => ?_, ?_, hrec, h.evictions⟩
  · rw [countP_append, h.puts]
    rfl
  · obtain ⟨w, x, y, z, heq⟩ := hans
    rw [heq]
    exact h.stored
  · obtain ⟨w, x, y, z, heq⟩ := hans
    rw [heq]
    exact h.classes cls
  · rw [countP_append, h.resolves, resolveTotal_answered]
    rfl

/-! ## Calls of `Put` -/

theorem Consistent.held (h : Consistent as s) (hfind : s.store.byCRC.find? crc = some e)
    {parsing : List (Nat × List UInt8)} {as' : List Action}
    (hputs : as'.countP Action.isPut = parsing.length + (s.outcomes.length + 1))
    (hresolves : as'.countP Action.isResolve = as.countP Action.isResolve) :
    Consistent as' { s with
      store := s.store.touch e
      parsing := parsing
      touches := (crc, .put) :: s.touches
      outcomes := .held :: s.outcomes } := by
  have hrep := h.rep.touch hfind
  refine ⟨hrep, hrep.crcs_nodup, ⟨h.bounded.live, h.bounded.liveBytes⟩, hputs, h.stored, fun cls => ?_,
    hresolves.trans h.resolves, h.rep.touch_recency hfind h.recency, h.evictions⟩
  have hne : PutOutcome.held ≠ .stored cls := nofun
  exact (h.classes cls).trans (count_cons_of_ne hne).symm

theorem stats_insert_evict {store store' : ModuleStore} {b : List UInt8}
    {parsed : Except String Cubin} (h : Shrunk (store.insert crc b parsed) store') :
    store'.stats.modulesStored = store.stats.modulesStored + 1 ∧
      store'.stats.modulesClassified = store.stats.modulesClassified + 1 ∧
      (∀ cls, store'.stats.ofClass cls = store.stats.ofClass cls + if cls = classify parsed then 1 else 0) ∧
      store'.stats.resolveTotal = store.stats.resolveTotal := by
  obtain ⟨n, c, b', hst⟩ := h.stats
  obtain ⟨w, wo, d, u, hsum, hc⟩ := countClass_eq store.stats (classify parsed)
  have hcls := ofClass_countClass store.stats (classify parsed)
  unfold ModuleStore.insert at hst
  rw [hst]
  refine ⟨?_, ?_, fun cls => ?_, ?_⟩
  · simp only [hc]
  · simp only [hc]
    exact hsum
  · rw [← hcls]
    cases cls <;> rfl
  · simp only [hc]
    rfl

theorem Consistent.store (h : Consistent as s) (hfind : s.store.byCRC.find? crc = none)
    {b : List UInt8} {parsed : Except String Cubin} {parsing : List (Nat × List UInt8)}
    {as' : List Action}
    (hputs : as'.countP Action.isPut = parsing.length + (s.outcomes.length + 1))
    (hresolves : as'.countP Action.isResolve = as.countP Action.isResolve) :
    Consistent as' {
      store := (s.store.insert crc b parsed).evictLocked.1
      parsing := parsing
      touches := (crc, .put) :: s.touches
      evictions := (s.store.insert crc b parsed).evictLocked.2.map (·, (crc, .put) :: s.touches) ++ s.evictions
      outcomes := .stored (classify parsed) :: s.outcomes } := by
  have hrec := h.rep.insert_recency hfind h.recency b parsed
  obtain ⟨hrep, hshrunk, hbounded, hevs⟩ :=
    evictLocked_spec (h.rep.insert hfind b parsed) hrec
  obtain ⟨hstored, hclassified, hcls, htotal⟩ := stats_insert_evict hshrunk
  refine ⟨hrep, hrep.crcs_nodup, hbounded, hputs, ?_, fun cls => ?_, ?_,
    hrec.sublist (hshrunk.lru.sublist.map _), fun p hp => ?_⟩
  · rw [hstored, hclassified, h.stored]
  · rw [hcls, h.classes, count_cons]
    simp only [beq_iff_eq, PutOutcome.stored.injEq, eq_comm (a := cls)]
  · rw [htotal, hresolves, h.resolves]
  · rcases mem_append.mp hp with hp | hp
    · obtain ⟨ev, hev, rfl⟩ := mem_map.mp hp
      exact hevs ev hev
    · exact h.evictions p hp

theorem Consistent.finish (h : Consistent as s) {i : Nat} {b : List UInt8} (hi : s.parsing[i]? = some (crc, b)) :
    Consistent (as ++ [.putParsed i]) (s.finish parse i crc b) := by
  have hlt : i < s.parsing.length := (List.getElem?_eq_some_iff.mp hi).1
  have hputs : (as ++ [Action.putParsed i]).countP Action.isPut =
      (s.parsing.eraseIdx i).length + (s.outcomes.length + 1) := by
    rw [countP_append, h.puts, length_eraseIdx_of_lt hlt]
    have hno : [Action.putParsed i].countP Action.isPut = 0 := rfl
    omega
  have hresolves : (as ++ [Action.putParsed i]).countP Action.isResolve = as.countP Action.isResolve := by
    rw [countP_append]
    rfl
  unfold SharedStore.finish putParsed putHeld
  cases hfind : s.store.byCRC.find? crc with
  | none => exact h.store hfind hputs hresolves
  | some e => exact h.held hfind hputs hresolves

theorem Consistent.put (h : Consistent as s) {b : List UInt8}
    (hstep : s.step parse (.put crc b) = some s') : Consistent (as ++ [.put crc b]) s' := by
  have hresolves : (as ++ [Action.put crc b]).countP Action.isResolve = as.countP Action.isResolve := by
    rw [countP_append]
    rfl
  have hputs : (as ++ [Action.put crc b]).countP Action.isPut = s.parsing.length + (s.outcomes.length + 1) := by
    rw [countP_append, h.puts]
    rfl
  simp only [SharedStore.step, putHeld] at hstep
  cases hfind : s.store.byCRC.find? crc with
  | none =>
    rw [hfind] at hstep
    cases hstep
    refine ⟨h.rep, h.once, h.bounded, ?_, h.stored, h.classes, hresolves.trans h.resolves, h.recency, h.evictions⟩
    rw [hputs]
    show s.parsing.length + (s.outcomes.length + 1) = s.parsing.length + 1 + s.outcomes.length
    omega
  | some e =>
    rw [hfind] at hstep
    cases hstep
    exact h.held hfind hputs hresolves

theorem Consistent.step (h : Consistent as s) (hstep : s.step parse a = some s') : Consistent (as ++ [a]) s' := by
  cases a with
  | put crc b => exact h.put hstep
  | putParsed i =>
    obtain ⟨⟨crc, b⟩, hi, rfl⟩ := Option.map_eq_some_iff.mp hstep
    exact h.finish hi
  | resolve crc functionIndex pcOffset =>
    cases hstep
    exact h.resolve crc functionIndex pcOffset
  | has crc =>
    cases hstep
    rw [has_eq]
    exact h.look crc .has rfl rfl
  | functionName crc functionIndex =>
    cases hstep
    rw [functionName_eq]
    exact h.look crc .functionName rfl rfl

/-! ## Every run -/

/-- After every critical section of every interleaving, whatever the parser answers. -/
theorem module_store_consistent (parse : List UInt8 → Except String Cubin) (capacity maxBytes : Int)
    (h : Run (fun s a s' => s.step parse a = some s') (new capacity maxBytes) as s) :
    s.Consistent as := by
  refine Run.invariant (I := fun as s => Consistent as s) (consistent_new capacity maxBytes) ?_ h
  intro as s a s' _ hs hstep
  exact hs.step hstep

/-- Bytes that parse to a module without functions, if there are any. -/
def parseAny (b : List UInt8) : Except String Cubin :=
  if b = [] then .error "truncated"
  else .ok { functions := [], hasLineInfo := true, lineInfoErr := none, resolve := fun _ _ => none }

/-- Two calls of `Put` race for one module, and a third brings a module that is too large. -/
def racingPuts : List Action :=
  [.put 1 [0], .put 1 [0], .putParsed 1, .putParsed 0, .resolve 1 0 0, .put 2 [0, 0, 0], .putParsed 0]

theorem module_store_consistent_racing : ∃ s, Run (fun s a s' => s.step parseAny a = some s') (new 4 2) racingPuts s ∧
      s.outcomes = [.stored .withLineInfo, .held, .stored .withLineInfo] ∧ s.store.crcs = [] ∧
      s.Consistent racingPuts := by
  obtain ⟨s, hrun, hp⟩ := @exists_run _ _ (step parseAny) (new 4 2) racingPuts
    (fun s => s.outcomes = [.stored .withLineInfo, .held, .stored .withLineInfo] ∧
      s.store.crcs = []) (by decide +kernel)
  obtain ⟨houtcomes, hcrcs⟩ := of_decide_eq_true hp
  exact ⟨s, hrun, houtcomes, hcrcs, module_store_consistent parseAny 4 2 hrun⟩

/-- A module is offered twice and looked for with `Has` before a third one needs room. -/
def lookedFor : List Action :=
  [.put 1 [0], .putParsed 0, .put 1 [0], .put 2 [0], .putParsed 0, .has 1, .put 3 [0], .putParsed 0]

/-- The module dropped is not the one that calls other than `Has` touched least recently, and
the `Put` that found its module is not in any counter. -/
theorem module_store_has_refreshes : ∃ s, Run (fun s a s' => s.step parseAny a = some s') (new 2 0) lookedFor s ∧
      ¬(∀ p ∈ s.evictions, LeastRecent ((p.2.filter (·.2 ≠ .has)).map Prod.fst) p.1) ∧
      lookedFor.countP Action.isPut ≠ s.parsing.length + s.store.stats.modulesClassified := by
  obtain ⟨s, hrun, hp⟩ := @exists_run _ _ (step parseAny) (new 2 0) lookedFor
    (fun s => s.evictions = [(⟨2, [3, 1]⟩, [(3, .put), (1, .has), (2, .put), (1, .put), (1, .put)])] ∧
      s.parsing = [] ∧ s.store.stats.modulesClassified = 3) (by decide +kernel)
  obtain ⟨hevictions, hparsing, hclassified⟩ := of_decide_eq_true hp
  refine ⟨s, hrun, fun h => ?_, ?_⟩
  · have hleast := (h _ (hevictions ▸ mem_singleton_self _)).2 1 (by decide)
    exact absurd hleast (by decide)
  · rw [hparsing, hclassified]
    decide

end SharedStore

end PerfAgent.Gpu
