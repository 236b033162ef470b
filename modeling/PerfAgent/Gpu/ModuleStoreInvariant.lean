import Mathlib.Algebra.Ring.Int.Defs
import PerfAgent.Gpu.ModuleStore

/-!
# The invariant of the module store

The map and the list hold the same entries, the byte count is their size, and the counters
tell what came and went.  Each critical section keeps this; the loops of `evictLocked` keep it
and end within the bounds, and what they drop is at the back of the list.
-/

namespace PerfAgent.Gpu

variable {l : List ModuleEntry}

open List
namespace ModuleStore

def crcs (s : ModuleStore) : List Nat := s.lru.map (·.crc)

structure Rep (s : ModuleStore) : Prop where
  same : s.byCRC.entries.Perm (s.lru.map fun e => ⟨e.crc, e⟩)
  elems_nodup : (s.lru.map (·.elem)).Nodup
  elems_lt : ∀ e ∈ s.lru, e.elem < s.elems
  bytes : s.liveBytes = (s.lru.map fun e => (e.bytes.length : Int)).sum
  stored : s.stats.modulesStored = s.byCRC.size + s.stats.modulesEvicted
  evicted : s.stats.modulesEvicted = s.stats.modulesEvictedCapacity + s.stats.modulesEvictedBytes

variable {s s' : ModuleStore} {e : ModuleEntry} {crc : Nat} {log : List Nat}

theorem Rep.find?_iff (h : s.Rep) : s.byCRC.find? crc = some e ↔ e ∈ s.lru ∧ e.crc = crc := by
  have hmem : s.byCRC.find? crc = some e ↔
      (⟨crc, e⟩ : Sigma fun _ : Nat => ModuleEntry) ∈ s.byCRC.entries := AList.mem_lookup_iff
  rw [hmem, h.same.mem_iff, mem_map]
  constructor
  · rintro ⟨e', he', heq⟩
    cases heq
    exact ⟨he', rfl⟩
  · rintro ⟨he, rfl⟩
    exact ⟨e, he, rfl⟩

theorem Rep.size_eq (h : s.Rep) : s.byCRC.size = s.lru.length := by
  rw [AssocMap.size, h.same.length_eq, length_map]

theorem Rep.crcs_nodup (h : s.Rep) : s.crcs.Nodup := by
  have hkeys : (s.byCRC.entries.map Sigma.fst).Nodup := s.byCRC.nodupKeys
  rw [(h.same.map Sigma.fst).nodup_iff, map_map] at hkeys
  exact hkeys

theorem rep_new (capacity maxBytes : Int) : (newModuleStore capacity maxBytes).Rep :=
  ⟨.refl _, nodup_nil, nofun, rfl, rfl, rfl⟩

/-! ## Recency -/

theorem moveToFront_split {lru : List ModuleEntry} (hnodup : (lru.map (·.elem)).Nodup)
    (he : e ∈ lru) : ∃ l₁ l₂, lru = l₁ ++ e :: l₂ ∧ moveToFront lru e.elem = e :: (l₁ ++ l₂) := by
  obtain ⟨l₁, l₂, rfl⟩ := append_of_mem he
  refine ⟨l₁, l₂, rfl, ?_⟩
  have hfirst : ∀ x ∈ l₁, ¬(x.elem == e.elem) = true := by
    intro x hx hc
    rw [map_append, map_cons] at hnodup
    have hdis := (nodup_append.mp hnodup).2.2 x.elem (mem_map_of_mem hx) e.elem mem_cons_self
    exact hdis (eq_of_beq hc)
  have hnone : l₁.find? (fun x => x.elem == e.elem) = none := find?_eq_none.mpr hfirst
  unfold moveToFront
  rw [find?_append, hnone, Option.none_or, find?_cons_of_pos (by simp),
    eraseP_append_right _ hfirst, eraseP_cons_of_pos (by simp)]

theorem Rep.touch_split (h : s.Rep) (he : s.byCRC.find? crc = some e) :
    ∃ l₁ l₂, s.lru = l₁ ++ e :: l₂ ∧ (s.touch e).lru = e :: (l₁ ++ l₂) :=
  moveToFront_split h.elems_nodup (h.find?_iff.mp he).1

theorem Rep.touch (h : s.Rep) (he : s.byCRC.find? crc = some e) : (s.touch e).Rep := by
  obtain ⟨l₁, l₂, hl, htouch⟩ := h.touch_split he
  have hperm : s.lru.Perm (s.touch e).lru := by
    rw [hl, htouch]
    exact perm_middle
  refine ⟨h.same.trans (hperm.map _), (hperm.map _).nodup_iff.mp h.elems_nodup,
    fun x hx => h.elems_lt x (hperm.mem_iff.mpr hx), ?_, h.stored, h.evicted⟩
  exact h.bytes.trans (hperm.map _).sum_eq

theorem Rep.touch_recency (h : s.Rep) (he : s.byCRC.find? crc = some e)
    (hrec : ByRecency log s.crcs) : ByRecency (crc :: log) (s.touch e).crcs := by
  obtain ⟨l₁, l₂, hl, htouch⟩ := h.touch_split he
  obtain rfl := (h.find?_iff.mp he).2
  rw [crcs, hl, map_append, map_cons] at hrec
  rw [crcs, htouch, map_cons, map_append]
  exact hrec.touch

/-! ## Eviction -/

def LeastRecent (log : List Nat) (ev : Eviction) : Prop :=
  ev.victim ∈ log ∧ ∀ c ∈ ev.left, log.idxOf c < log.idxOf ev.victim

/-- What dropping modules leaves: a part of the list, its front, and nothing else has changed
but the byte count and the counters of evictions. -/
structure Shrunk (s s' : ModuleStore) : Prop where
  capacity : s'.capacity = s.capacity
  maxBytes : s'.maxBytes = s.maxBytes
  lru : s'.lru <+: s.lru
  stats : ∃ n c b, s'.stats = { s.stats with
    modulesEvicted := n, modulesEvictedCapacity := c, modulesEvictedBytes := b }

theorem Shrunk.refl (s : ModuleStore) : Shrunk s s :=
  ⟨rfl, rfl, prefix_refl _, _, _, _, rfl⟩

theorem Shrunk.trans {s'' : ModuleStore} (h : Shrunk s s') (h' : Shrunk s' s'') : Shrunk s s'' := by
  obtain ⟨n, c, b, hst⟩ := h'.stats
  obtain ⟨_, _, _, hst'⟩ := h.stats
  refine ⟨h'.capacity.trans h.capacity, h'.maxBytes.trans h.maxBytes, h'.lru.trans h.lru, n, c, b, ?_⟩
  rw [hst, hst']

def Counts (count : ModuleStoreStats → ModuleStoreStats) : Prop :=
  ∀ st, ∃ c b, c + b = st.modulesEvictedCapacity + st.modulesEvictedBytes + 1 ∧
    count st = { st with modulesEvictedCapacity := c, modulesEvictedBytes := b }

theorem counts_capacity : Counts countCapacity := fun st => ⟨_, st.modulesEvictedBytes, by omega, rfl⟩

theorem counts_bytes : Counts countBytes := fun st => ⟨st.modulesEvictedCapacity, _, by omega, rfl⟩

theorem evictOldestLocked_eq (hl : s.lru = l ++ [e]) :
    s.evictOldestLocked = some (e, { s with
      lru := l
      byCRC := s.byCRC.del e.crc
      liveBytes := s.liveBytes - e.bytes.length
      stats := { s.stats with modulesEvicted := s.stats.modulesEvicted + 1 } }) := by
  unfold evictOldestLocked
  rw [hl, getLast?_concat, dropLast_concat]

theorem Rep.evict {count : ModuleStoreStats → ModuleStoreStats} (hcount : Counts count) (h : s.Rep)
    (hl : s.lru = l ++ [e]) :
    ({ s with
      lru := l
      byCRC := s.byCRC.del e.crc
      liveBytes := s.liveBytes - e.bytes.length
      stats := count { s.stats with modulesEvicted := s.stats.modulesEvicted + 1 } }).Rep := by
  obtain ⟨c, b, hsum, hc⟩ := hcount { s.stats with modulesEvicted := s.stats.modulesEvicted + 1 }
  have hfind : s.byCRC.find? e.crc = some e := h.find?_iff.mpr ⟨by simp [hl], rfl⟩
  have hsame := (AssocMap.entries_perm_of_find? hfind).symm.trans h.same
  rw [hl, map_append] at hsame
  have hsub : l.Sublist s.lru := hl ▸ sublist_append_left l [e]
  have hstored := h.stored
  have hevicted := h.evicted
  rw [AssocMap.size_of_find? hfind] at hstored
  rw [hc]
  refine ⟨?_, h.elems_nodup.sublist (hsub.map _), fun x hx => h.elems_lt x (hsub.subset hx), ?_, ?_, ?_⟩
  · exact (hsame.trans (perm_append_singleton _ _)).cons_inv
  · rw [h.bytes, hl]
    simp
  · show s.stats.modulesStored = (s.byCRC.del e.crc).size + (s.stats.modulesEvicted + 1)
    omega
  · show s.stats.modulesEvicted + 1 = c + b
    simp only at hsum
    omega

/-- What a loop that drops modules does: it keeps the invariant and ends by its condition or
with an empty store, and each module it drops is the least recent one at the time. -/
structure Trimmed (full : ModuleStore → Bool) (log : List Nat) (s : ModuleStore)
    (r : (ModuleStore × List Eviction) × Bool) : Prop where
  rep : r.1.1.Rep
  shrunk : Shrunk s r.1.1
  ended : full r.1.1 = false ∨ r.1.1.lru = []
  gaveUp : r.2 = false → r.1.1.lru = []
  dropped : ∀ ev ∈ r.1.2, LeastRecent log ev

theorem trimmed_evictWhile {full : ModuleStore → Bool}
    {count : ModuleStoreStats → ModuleStoreStats} (hcount : Counts count) {fuel : Nat}
    {evs : List Eviction} (h : s.Rep) (hrec : ByRecency log s.crcs) (hfuel : s.lru.length < fuel)
    (hevs : ∀ ev ∈ evs, LeastRecent log ev) :
    Trimmed full log s (evictWhile full count fuel (s, evs)) := by
  induction fuel generalizing s evs with
  | zero => exact absurd hfuel (Nat.not_lt_zero _)
  | succ fuel ih =>
    unfold evictWhile
    split
    next hover =>
      rcases eq_nil_or_concat s.lru with hnil | ⟨l, e, hl⟩
      · have hno : s.evictOldestLocked = none := by
          unfold evictOldestLocked
          rw [hnil]
          rfl
        simp only [hno]
        exact ⟨h, .refl s, .inr hnil, fun _ => hnil, hevs⟩
      · rw [concat_eq_append] at hl
        rw [crcs, hl, map_append, map_cons, map_nil] at hrec
        simp only [evictOldestLocked_eq hl]
        obtain ⟨c, b, -, hc⟩ :=
          hcount { s.stats with modulesEvicted := s.stats.modulesEvicted + 1 }
        have hdropped : ∀ ev ∈ (⟨e.crc, l.map (·.crc)⟩ : Eviction) :: evs, LeastRecent log ev := by
          intro ev hev
          rcases mem_cons.mp hev with rfl | hev
          · exact ⟨hrec.touched _ (by simp), hrec.last⟩
          · exact hevs ev hev
        have hshrunk : Shrunk s { s with
            lru := l
            byCRC := s.byCRC.del e.crc
            liveBytes := s.liveBytes - e.bytes.length
            stats := count { s.stats with modulesEvicted := s.stats.modulesEvicted + 1 } } :=
          ⟨rfl, rfl, hl ▸ prefix_append l [e], _, c, b, hc⟩
        have hlen : s.lru.length = l.length + 1 := by rw [hl, List.length_append]; rfl
        obtain ⟨hrep, hsh, hend, hgave, hdrop⟩ := ih (h.evict hcount hl)
          (hrec.sublist (sublist_append_left _ _)) (by show l.length < fuel; omega) hdropped
        exact ⟨hrep, hshrunk.trans hsh, hend, hgave, hdrop⟩
    next hover => exact ⟨h, .refl s, .inl (by simpa using hover), nofun, hevs⟩

structure Bounded (s : ModuleStore) : Prop where
  live : s.byCRC.size ≤ s.capacity
  liveBytes : s.liveBytes ≤ s.maxBytes

theorem Rep.bounded_of_empty (h : s.Rep) (hnil : s.lru = []) : s.Bounded := by
  constructor
  · rw [h.size_eq, hnil]
    exact Nat.zero_le _
  · rw [h.bytes, hnil]
    exact Int.natCast_nonneg _

theorem Shrunk.size_le (h : Shrunk s s') (hrep : s.Rep) (hrep' : s'.Rep) : s'.byCRC.size ≤ s.byCRC.size := by
  rw [hrep.size_eq, hrep'.size_eq]
  exact h.lru.length_le

theorem evictLocked_spec (h : s.Rep) (hrec : ByRecency log s.crcs) :
    s.evictLocked.1.Rep ∧ Shrunk s s.evictLocked.1 ∧ s.evictLocked.1.Bounded ∧
      ∀ ev ∈ s.evictLocked.2, LeastRecent log ev := by
  have hcap := @trimmed_evictWhile s log overCapacity countCapacity counts_capacity
    (s.lru.length + 1) [] h hrec (Nat.lt_succ_self _) nofun
  unfold evictLocked
  set r := evictWhile overCapacity countCapacity (s.lru.length + 1) (s, []) with hr
  rcases hr' : r with ⟨⟨s₁, evs⟩, done⟩
  rw [hr'] at hcap
  simp only
  split
  next hdone =>
    have hrec₁ : ByRecency log s₁.crcs := hrec.sublist (hcap.shrunk.lru.sublist.map _)
    have hbytes := @trimmed_evictWhile s₁ log overBytes countBytes counts_bytes
      (s₁.lru.length + 1) evs hcap.rep hrec₁ (Nat.lt_succ_self _) hcap.dropped
    refine ⟨hbytes.rep, hcap.shrunk.trans hbytes.shrunk, ?_, hbytes.dropped⟩
    rcases hbytes.ended with hno | hnil
    · refine ⟨?_, by simpa [overBytes] using hno⟩
      rw [hbytes.shrunk.capacity]
      refine (hbytes.shrunk.size_le hcap.rep hbytes.rep).trans ?_
      rcases hcap.ended with hno | hnil
      · simpa [overCapacity] using hno
      · exact (hcap.rep.bounded_of_empty hnil).live
    · exact hbytes.rep.bounded_of_empty hnil
  next hdone =>
    exact ⟨hcap.rep, hcap.shrunk, hcap.rep.bounded_of_empty (hcap.gaveUp (by simpa using hdone)), hcap.dropped⟩

/-! ## Insertion -/

theorem countClass_eq (st : ModuleStoreStats) (cls : ModuleClass) :
    ∃ w wo d u, w + wo + d + u = st.modulesClassified + 1 ∧ countClass st cls = { st with
      modulesWithLineInfo := w
      modulesWithoutLineInfo := wo
      modulesDamagedLineInfo := d
      modulesUnparseable := u } := by
  unfold ModuleStoreStats.modulesClassified
  cases cls with
  | withLineInfo =>
    exact ⟨_, st.modulesWithoutLineInfo, st.modulesDamagedLineInfo, st.modulesUnparseable, by omega,
      rfl⟩
  | withoutLineInfo =>
    exact ⟨st.modulesWithLineInfo, _, st.modulesDamagedLineInfo, st.modulesUnparseable, by omega, rfl⟩
  | damagedLineInfo =>
    exact ⟨st.modulesWithLineInfo, st.modulesWithoutLineInfo, _, st.modulesUnparseable, by omega, rfl⟩
  | unparseable =>
    exact ⟨st.modulesWithLineInfo, st.modulesWithoutLineInfo, st.modulesDamagedLineInfo, _, by omega,
      rfl⟩

theorem Rep.insert (h : s.Rep) (hno : s.byCRC.find? crc = none) (b : List UInt8)
    (parsed : Except String Cubin) : (s.insert crc b parsed).Rep := by
  have hentries : ∀ e : ModuleEntry, (s.byCRC.put crc e).entries = ⟨crc, e⟩ :: s.byCRC.entries := by
    intro e
    have hdel : (s.byCRC.del crc).entries = s.byCRC.entries := by
      rw [AssocMap.del_of_find?_eq_none hno]
    exact congrArg (⟨crc, e⟩ :: ·) hdel
  obtain ⟨w, wo, d, u, -, hc⟩ := countClass_eq s.stats (classify parsed)
  have hstored := h.stored
  unfold ModuleStore.insert
  rw [hc]
  refine ⟨?_, ?_, fun e he => ?_, ?_, ?_, h.evicted⟩
  · simp only [hentries, map_cons]
    exact h.same.cons _
  · refine nodup_cons.mpr ⟨fun hmem => ?_, h.elems_nodup⟩
    obtain ⟨e, he, heq⟩ := mem_map.mp hmem
    exact absurd (h.elems_lt e he) (by simp only at heq; omega)
  · rcases mem_cons.mp he with rfl | he
    · exact Nat.lt_succ_self _
    · exact (h.elems_lt e he).trans (Nat.lt_succ_self _)
  · simp only [map_cons, sum_cons, h.bytes]
    exact Int.add_comm _ _
  · simp only [AssocMap.size_put_of_find?_eq_none hno]
    omega

theorem Rep.insert_recency (h : s.Rep) (hno : s.byCRC.find? crc = none)
    (hrec : ByRecency log s.crcs) (b : List UInt8) (parsed : Except String Cubin) :
    ByRecency (crc :: log) (s.insert crc b parsed).crcs := by
  refine hrec.push fun hmem => ?_
  obtain ⟨e, he, hcrc⟩ := mem_map.mp hmem
  rw [h.find?_iff.mpr ⟨he, hcrc⟩] at hno
  cases hno

/-! ## What is left of a module that has just been stored -/

theorem evictWhile_front {full : ModuleStore → Bool}
    {count : ModuleStoreStats → ModuleStoreStats} (hcount : Counts count) {s₀ : ModuleStore}
    (hstop : ∀ s' : ModuleStore, Shrunk s₀ s' → s'.Rep → s'.lru = [e] → full s' = false)
    {fuel : Nat} {evs : List Eviction} (h : s.Rep) (hsh : Shrunk s₀ s) {l : List ModuleEntry}
    (hl : s.lru = e :: l) : ∃ l', (evictWhile full count fuel (s, evs)).1.1.lru = e :: l' := by
  induction fuel generalizing s evs l with
  | zero => exact ⟨l, hl⟩
  | succ fuel ih =>
    unfold evictWhile
    split
    next hover =>
      rcases eq_nil_or_concat l with rfl | ⟨l₁, x, rfl⟩
      · rw [hstop s hsh h hl] at hover
        cases hover
      · have hlast : s.lru = (e :: l₁) ++ [x] := by rw [hl, concat_eq_append]; rfl
        simp only [evictOldestLocked_eq hlast]
        obtain ⟨c, b, -, hc⟩ :=
          hcount { s.stats with modulesEvicted := s.stats.modulesEvicted + 1 }
        have hshrunk : Shrunk s { s with
            lru := e :: l₁
            byCRC := s.byCRC.del x.crc
            liveBytes := s.liveBytes - x.bytes.length
            stats := count { s.stats with modulesEvicted := s.stats.modulesEvicted + 1 } } :=
          ⟨rfl, rfl, hlast ▸ prefix_append _ [x], _, c, b, hc⟩
        exact ih (h.evict hcount hlast) (hsh.trans hshrunk) rfl
    next => exact ⟨l, hl⟩

theorem sum_lengths_nonneg (l : List ModuleEntry) : 0 ≤ (l.map fun e => (e.bytes.length : Int)).sum := by
  induction l with
  | nil => exact Int.le_refl 0
  | cons x l ih =>
    rw [map_cons, sum_cons]
    omega

theorem Shrunk.liveBytes_le (h : Shrunk s s') (hrep : s.Rep) (hrep' : s'.Rep) : s'.liveBytes ≤ s.liveBytes := by
  obtain ⟨l, hl⟩ := h.lru
  rw [hrep.bytes, hrep'.bytes, ← hl, map_append, sum_append]
  exact Int.le_add_of_nonneg_right (sum_lengths_nonneg l)

theorem held_of_insert_iff (h : s.Rep) (hcap : 1 ≤ s.capacity)
    (hno : s.byCRC.find? crc = none) (b : List UInt8) (parsed : Except String Cubin) :
    ((s.insert crc b parsed).evictLocked.1.byCRC.find? crc).isSome = true ↔ b.length ≤ s.maxBytes := by
  have hrep := h.insert hno b parsed
  have hspec := evictLocked_spec hrep (ByRecency.of_nodup hrep.crcs_nodup)
  obtain ⟨hrep', hshrunk, hbounded, -⟩ := hspec
  obtain ⟨e, he, hbytes⟩ : ∃ e, (s.insert crc b parsed).lru = e :: s.lru ∧ e.bytes = b ∧
      e.crc = crc := ⟨_, rfl, rfl, rfl⟩
  obtain ⟨hbytes, hcrc⟩ := hbytes
  constructor
  · intro hheld
    obtain ⟨e', he'⟩ := Option.isSome_iff_exists.mp hheld
    obtain ⟨hmem, hcrc'⟩ := hrep'.find?_iff.mp he'
    have hee : e' = e := by
      have := hshrunk.lru.subset hmem
      rw [he] at this
      rcases mem_cons.mp this with rfl | hold
      · rfl
      · rw [h.find?_iff.mpr ⟨hold, hcrc'⟩] at hno
        cases hno
    subst hee
    obtain ⟨l₁, l₂, hl⟩ := append_of_mem hmem
    have hsum := hrep'.bytes
    rw [hl, map_append, map_cons, sum_append, sum_cons, hbytes] at hsum
    have h₁ := sum_lengths_nonneg l₁
    have h₂ := sum_lengths_nonneg l₂
    have hmax := hbounded.liveBytes
    rw [hshrunk.maxBytes] at hmax
    have hsame : (s.insert crc b parsed).maxBytes = s.maxBytes := rfl
    omega
  · intro hfit
    have hcapStop : ∀ s' : ModuleStore, Shrunk (s.insert crc b parsed) s' → s'.Rep →
        s'.lru = [e] → overCapacity s' = false := by
      intro s' hs' hr' hl'
      have hsame : (s.insert crc b parsed).capacity = s.capacity := rfl
      rw [overCapacity, hr'.size_eq, hl', hs'.capacity, hsame]
      exact decide_eq_false (Nat.not_lt.mpr hcap)
    have hbytesStop : ∀ s' : ModuleStore, Shrunk (s.insert crc b parsed) s' → s'.Rep →
        s'.lru = [e] → overBytes s' = false := by
      intro s' hs' hr' hl'
      rw [overBytes, hr'.bytes, hl', hs'.maxBytes]
      have hsame : (s.insert crc b parsed).maxBytes = s.maxBytes := rfl
      simp only [map_cons, map_nil, sum_cons, sum_nil, hbytes, hsame, gt_iff_lt, decide_eq_false_iff_not, Int.not_lt]
      omega
    have hfront : ∃ l', (s.insert crc b parsed).evictLocked.1.lru = e :: l' := by
      unfold evictLocked
      obtain ⟨l₁, hl₁⟩ := @evictWhile_front _ e overCapacity countCapacity counts_capacity
        _ hcapStop ((s.insert crc b parsed).lru.length + 1) [] hrep (.refl _) _ he
      have htrim := @trimmed_evictWhile _ _ overCapacity countCapacity counts_capacity
        ((s.insert crc b parsed).lru.length + 1) [] hrep (ByRecency.of_nodup hrep.crcs_nodup)
        (Nat.lt_succ_self _) nofun
      simp only
      split
      · exact evictWhile_front counts_bytes hbytesStop htrim.rep htrim.shrunk hl₁
      · exact ⟨l₁, hl₁⟩
    obtain ⟨l', hl'⟩ := hfront
    rw [hrep'.find?_iff.mpr ⟨by rw [hl']; exact mem_cons_self, hcrc⟩]
    rfl

end ModuleStore

end PerfAgent.Gpu
