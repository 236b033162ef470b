import PerfAgent.Debuginfod.CacheRuns
import Mathlib.Algebra.Order.Ring.Int

/-!
# What the artifact cache promises

With no call in flight the table and the directory match, and an eviction that runs alone then
leaves at most `maxBytes` on the disk and has taken the rows that were used longest ago.  Both are
about the runs whose steps are `Careful`; two runs that are not end the module.
-/

namespace PerfAgent.Debuginfod

open List

/-! ## The rows that go -/

variable {acts : List Act}

theorem evictRows_enough (excess : Nat) (order : List Entry) :
    ∀ {freed}, ∃ rest, order = evictRows excess freed order ++ rest ∧
      (rest = [] ∨ excess ≤ freed + ((evictRows excess freed order).map Entry.size).sum) := by
  induction order with
  | nil => exact fun {freed} => ⟨[], rfl, .inl rfl⟩
  | cons e es ih =>
    intro freed
    unfold evictRows
    split
    · obtain ⟨rest, heq, henough⟩ := @ih (freed + e.size)
      refine ⟨rest, by rw [cons_append, ← heq], henough.imp_right fun h => ?_⟩
      rw [map_cons, sum_cons]
      omega
    · next hfreed => exact ⟨e :: es, rfl, .inr (Nat.le_trans (Nat.not_lt.mp hfreed) (Nat.le_add_right _ _))⟩

namespace Cache

variable {c c' t : Cache}

/-- The rows of `gone` are deleted from the table. -/
def withoutRows (index : AssocMap Artifact Access) (gone : List Entry) : AssocMap Artifact Access :=
  gone.foldl (fun index e => index.del e.artifact) index

def rowsOf (index : AssocMap Artifact Access) : List Entry :=
  index.entries.map fun e => ⟨e.1, e.2.size, e.2.lastAccess⟩

theorem mem_rowsOf {index : AssocMap Artifact Access} {e : Entry} :
    e ∈ rowsOf index ↔ index.find? e.artifact = some ⟨e.size, e.lastAccess⟩ :=
  mem_table (c := { maxBytes := 0, index := index })

theorem sum_eq_rowsOf (index : AssocMap Artifact Access) :
    index.sum Access.size = ((rowsOf index).map Entry.size).sum := by
  unfold AssocMap.sum AssocMap.values rowsOf
  rw [map_map, map_map]
  rfl

theorem rowsOf_withoutRows {gone rest : List Entry} {index : AssocMap Artifact Access}
    (h : (rowsOf index).Perm (gone ++ rest)) : (rowsOf (withoutRows index gone)).Perm rest := by
  induction gone generalizing index with
  | nil => exact h
  | cons e gone ih =>
    refine @ih (index.del e.artifact) ?_
    have hfind := mem_rowsOf.mp (h.mem_iff.mpr (mem_cons_self ..))
    have hperm : (rowsOf index).Perm (e :: rowsOf (index.del e.artifact)) :=
      (AssocMap.entries_perm_of_find? hfind).map _
    exact (perm_cons e).mp (hperm.symm.trans h)

/-! ## An eviction that runs alone -/

def InOrder (t : Cache) (order : List Entry) : Prop :=
  order.Perm t.table ∧ order.Pairwise fun e e' => e.lastAccess ≤ e'.lastAccess

def excess (t : Cache) : Nat := ((t.totalBytes : Int) - t.maxBytes).toNat

/-- The rows that the eviction of `t` takes have gone. -/
def Taken (t : Cache) (index : AssocMap Artifact Access) : Prop :=
  ∃ order, t.InOrder order ∧ t.maxBytes < t.totalBytes ∧ index = withoutRows t.index (evictRows t.excess 0 order)

/-- How far the eviction that began in `t` has come. -/
def Evicting (t : Cache) (index : AssocMap Artifact Access) : Option Op → Prop
  | some .total => index = t.index
  | some (.rows excess) => index = t.index ∧ excess = t.excess ∧ t.maxBytes < t.totalBytes
  | some (.delete evicted left) =>
    ∃ order done, t.InOrder order ∧ t.maxBytes < t.totalBytes ∧ evicted = evictRows t.excess 0 order ∧
      evicted = done ++ left ∧ index = withoutRows t.index done
  | some (.remove _) => t.Taken index
  | none => (index = t.index ∧ (t.totalBytes : Int) ≤ t.maxBytes) ∨ t.Taken index
  | _ => False

theorem evicting_removing {index : AssocMap Artifact Access} (h : t.Taken index) (left : List Entry) :
    t.Evicting index (removing left) := by
  cases left with
  | nil => exact .inr h
  | cons e left => exact h

theorem evicting_deleting {index : AssocMap Artifact Access} {order done left : List Entry} (ho : t.InOrder order)
    (hlt : t.maxBytes < t.totalBytes) (hsplit : evictRows t.excess 0 order = done ++ left)
    (hindex : index = withoutRows t.index done) :
    t.Evicting index (deleting (evictRows t.excess 0 order) left) := by
  cases left with
  | nil =>
    rw [append_nil] at hsplit
    exact evicting_removing ⟨order, ho, hlt, hsplit ▸ hindex⟩ _
  | cons e left => exact ⟨order, done, ho, hlt, rfl, hsplit, hindex⟩

theorem goOn_zero {op : Op} {next : Option Op} (h : c.ops = [op]) : (c.goOn 0 next).ops = next.toList := by
  unfold goOn
  dsimp only
  rw [h]
  cases next with
  | none => rfl
  | some new => rfl

theorem getElem?_toList {next : Option Op} {op : Op} {i : Nat} (h : next.toList[i]? = some op) :
    i = 0 ∧ next = some op := by
  cases next with
  | none => cases h
  | some new =>
    cases i with
    | zero => exact ⟨rfl, h⟩
    | succ i => cases h

structure Alone (t c : Cache) (next : Option Op) : Prop where
  ops : c.ops = next.toList
  evicting : t.Evicting c.index next
  maxBytes : c.maxBytes = t.maxBytes

theorem Alone.goOn {op : Op} {next : Option Op} (hops : c.ops = [op]) (hmax : c.maxBytes = t.maxBytes)
    (h : t.Evicting c.index next) : Alone t (c.goOn 0 next) next :=
  ⟨goOn_zero hops, h, hmax⟩

theorem Alone.step {next : Option Op} {act : Act} (h : Alone t c next) (hact : act.isCall = false)
    (ha : c.step act = some c') : ∃ next', Alone t c' next' := by
  obtain ⟨hops, hevicting, hmax⟩ := h
  have hcall : ∀ {i : Nat} {op : Op}, c.ops[i]? = some op → i = 0 ∧ c.ops = [op] ∧ t.Evicting c.index (some op) := by
    intro i op hi
    rw [hops] at hi
    obtain ⟨rfl, rfl⟩ := getElem?_toList hi
    exact ⟨rfl, hops, hevicting⟩
  cases act with
  | writeAtomic | has | evict | prewarm => cases hact
  | create i star | rename i | stat i | touch i now | visit i p | endWalk i =>
    -- these are other calls
    simp only [Cache.step] at ha
    split at ha
    · next hold => exact (hcall hold).2.2.elim
    · cases ha
  | totalBytes i =>
    simp only [Cache.step] at ha
    split at ha
    · next hold =>
        obtain ⟨rfl, hone, hindex⟩ := hcall hold
        cases ha
        have htotal : c.totalBytes = t.totalBytes := congrArg (AssocMap.sum Access.size) hindex
        unfold totalled
        rw [htotal, hmax]
        refine ⟨_, .goOn hone hmax ?_⟩
        split
        · next hle => exact .inl ⟨hindex, hle⟩
        · next hgt => exact ⟨hindex, rfl, Int.not_le.mp hgt⟩
    · cases ha
  | rows i order =>
    simp only [Cache.step] at ha
    split at ha
    · next hold =>
        obtain ⟨rfl, hone, hindex, rfl, hlt⟩ := hcall hold
        split at ha
        · next hguard =>
            cases ha
            have htable : c.table = t.table := congrArg rowsOf hindex
            refine ⟨_, .goOn hone hmax ?_⟩
            exact @evicting_deleting t _ order [] _ ⟨htable ▸ hguard.1, hguard.2⟩ hlt rfl hindex
        · cases ha
    · cases ha
  | delete i =>
    simp only [Cache.step] at ha
    split at ha
    · next evicted e left hold =>
        obtain ⟨rfl, hone, order, done, ho, hlt, rfl, hsplit, hindex⟩ := hcall hold
        cases ha
        refine ⟨_, @Alone.goOn { c with index := c.index.del e.artifact } t _ _ hone hmax ?_⟩
        refine @evicting_deleting t _ order (done ++ [e]) _ ho hlt ?_ ?_
        · rw [hsplit, append_assoc, singleton_append]
        · change c.index.del e.artifact = _
          rw [hindex, withoutRows, withoutRows, foldl_append]
          rfl
    · cases ha
  | remove i =>
    simp only [Cache.step] at ha
    split at ha
    · next e left hold =>
        obtain ⟨rfl, hone, htaken⟩ := hcall hold
        cases ha
        unfold removed
        split
        · next p _ =>
            exact ⟨_, @Alone.goOn { c with files := c.files.del p } t _ _ hone hmax (evicting_removing htaken left)⟩
        · exact ⟨_, .goOn hone hmax (evicting_removing htaken left)⟩
    · cases ha

structure Evicted (t c : Cache) : Prop where
  within : (c.totalBytes : Int) ≤ c.maxBytes
  /-- No row that has gone was used later than one that is left. -/
  oldest : ∀ a b gone kept, t.index.find? a = some gone → c.index.find? a = none →
    c.index.find? b = some kept → gone.lastAccess ≤ kept.lastAccess

theorem evicted_of_taken (h : t.Taken c.index) (hmax : c.maxBytes = t.maxBytes) (hpos : 0 < t.maxBytes) :
    Evicted t c := by
  obtain ⟨order, ⟨hperm, hsorted⟩, hlt, hindex⟩ := h
  obtain ⟨rest, hsplit, henough⟩ := @evictRows_enough t.excess order 0
  have hrest : (rowsOf c.index).Perm rest := by
    rw [hindex]
    exact rowsOf_withoutRows (hsplit ▸ hperm.symm)
  refine ⟨?_, fun a b gone kept hgone hnone hkept => ?_⟩
  · have htotal : t.totalBytes = ((evictRows t.excess 0 order).map Entry.size).sum + (rest.map Entry.size).sum := by
      rw [← sum_append, ← map_append, ← hsplit]
      exact (sum_eq_rowsOf t.index).trans ((hperm.symm.map _).sum_eq)
    have hleft : c.totalBytes = (rest.map Entry.size).sum :=
      (sum_eq_rowsOf c.index).trans ((hrest.map _).sum_eq)
    have hexcess : (t.excess : Int) = t.totalBytes - t.maxBytes := Int.toNat_of_nonneg (by omega)
    rcases henough with rfl | henough
    · rw [hleft, hmax]
      exact Int.le_of_lt hpos
    · omega
  · have hmem : (⟨a, gone.size, gone.lastAccess⟩ : Entry) ∈ order := hperm.mem_iff.mpr (mem_table.mpr hgone)
    have hkeptMem : (⟨b, kept.size, kept.lastAccess⟩ : Entry) ∈ rest := hrest.mem_iff.mp (mem_rowsOf.mpr hkept)
    rw [hsplit] at hmem hsorted
    rcases mem_append.mp hmem with hevicted | hstill
    · exact (pairwise_append.mp hsorted).2.2 _ hevicted _ hkeptMem
    · rw [mem_rowsOf.mp (hrest.mem_iff.mpr hstill)] at hnone
      cases hnone

theorem evicted_of_alone (h : Alone t c none) (hpos : 0 < t.maxBytes) : Evicted t c := by
  rcases h.evicting with ⟨hindex, hle⟩ | htaken
  · refine ⟨?_, fun a b gone kept hgone hnone _ => ?_⟩
    · have htotal : c.totalBytes = t.totalBytes := congrArg (AssocMap.sum Access.size) hindex
      rw [h.maxBytes, htotal]
      exact hle
    · rw [hindex, hgone] at hnone
      cases hnone
  · exact evicted_of_taken htaken h.maxBytes hpos

theorem evicted_of_run {s : Cache} (hops : t.ops = []) (hpos : 0 < t.maxBytes) (hbegin : t.step .evict = some s)
    (h : Run Step s acts c) (halone : ∀ act ∈ acts, act.isCall = false) (hend : c.ops = []) : Evicted t c := by
  have hfirst : Alone t s (some .total) := by
    simp only [Cache.step, if_neg (Int.not_le.mpr hpos)] at hbegin
    cases hbegin
    exact ⟨by rw [call, hops]; rfl, rfl, rfl⟩
  have hlast : (∀ act ∈ acts, act.isCall = false) → ∃ next, Alone t c next :=
    h.invariant (I := fun acts c => (∀ act ∈ acts, act.isCall = false) → ∃ next, Alone t c next)
      (fun _ => ⟨_, hfirst⟩) fun acts c act c' _ ih ha hno => by
        obtain ⟨next, hnext⟩ := ih fun act hact => hno act (mem_append_left _ hact)
        exact hnext.step (hno act (mem_append_right _ (mem_singleton_self act))) ha
  obtain ⟨next, hnext⟩ := hlast halone
  cases next with
  | none => exact evicted_of_alone hnext hpos
  | some op =>
    have hops := hnext.ops
    rw [hend] at hops
    cases hops

/-! ## Between the calls -/

structure Matches (c : Cache) : Prop where
  sizes : ∀ a : Artifact, a.Plain → (c.index.find? a).map Access.size = c.fileOf a
  indexed : ∀ a, c.index.find? a ≠ none → a.Plain
  laidOut : ∀ p, c.files.find? p ≠ none → ∃ a : Artifact, a.Plain ∧ pathFor a = some p

theorem Matches.ok (h : c.Matches) (hops : c.ops = []) : c.Ok where
  plain op hop := by
    rw [hops] at hop
    cases hop
  indexed := h.indexed
  laidOut := h.laidOut
  settled a ha := .inl (h.sizes a ha)

theorem Ok.matches (h : c.Ok) (hops : c.ops = []) : c.Matches where
  sizes a ha := by
    rcases h.settled a ha with hsame | ⟨-, -, op, hop, -⟩ | ⟨-, -, -, op, hop, -⟩
    · exact hsame
    · rw [hops] at hop
      cases hop
    · rw [hops] at hop
      cases hop
  indexed := h.indexed
  laidOut := h.laidOut

theorem Matches.diskBytes_eq (h : c.Matches) : c.diskBytes = c.totalBytes := by
  have hperm : c.files.entries.Perm
      (c.index.entries.map fun e => (⟨(pathFor e.1).getD [], e.2.size⟩ : Sigma fun _ : Path => Nat)) := by
    have hplain : ∀ e ∈ c.index.entries, e.1.Plain := fun e he => by
      refine h.indexed e.1 ?_
      rw [show c.index.find? e.1 = some e.2 from AList.mem_lookup_iff.mpr he]
      exact Option.some_ne_none _
    refine (perm_ext_iff_of_nodup c.files.nodupKeys.nodup ?_).mpr fun ⟨p, n⟩ => ?_
    · refine List.Nodup.map_on (fun e he e' he' heq => ?_) c.index.nodupKeys.nodup
      have hpaths : (pathFor e.1).getD [] = (pathFor e'.1).getD [] := congrArg Sigma.fst heq
      rw [(hplain e he).pathFor_eq, (hplain e' he').pathFor_eq] at hpaths
      have hkeys : e.1 = e'.1 := (hplain e he).eq_of_pathFor (hplain e' he') (by
        rw [(hplain e he).pathFor_eq, (hplain e' he').pathFor_eq]
        exact congrArg some hpaths)
      exact List.NodupKeys.eq_of_fst_eq c.index.nodupKeys he he' hkeys
    · constructor
      · intro hmem
        have hfind : c.files.find? p = some n := AList.mem_lookup_iff.mpr hmem
        obtain ⟨a, ha, hap⟩ := h.laidOut p (hfind ▸ Option.some_ne_none _)
        have hsize := h.sizes a ha
        rw [fileOf_eq hap, hfind] at hsize
        obtain ⟨acc, hacc, hn⟩ := Option.map_eq_some_iff.mp hsize
        refine mem_map.mpr ⟨⟨a, acc⟩, AList.mem_lookup_iff.mp hacc, ?_⟩
        rw [hap, hn]
        rfl
      · intro hmem
        obtain ⟨⟨a, acc⟩, he, heq⟩ := mem_map.mp hmem
        have hacc : c.index.find? a = some acc := AList.mem_lookup_iff.mpr he
        have ha := hplain _ he
        have hsize := h.sizes a ha
        rw [hacc, fileOf_eq ha.pathFor_eq] at hsize
        have hpath : [buildIDDir, a.buildID.take 2, a.fileName] = p := by
          have hfst : (pathFor a).getD [] = p := congrArg Sigma.fst heq
          rwa [ha.pathFor_eq] at hfst
        have hsnd : acc.size = n := by cases heq; rfl
        rw [hpath, Option.map_some, hsnd] at hsize
        exact AList.mem_lookup_iff.mp hsize.symm
  unfold diskBytes totalBytes AssocMap.sum AssocMap.values
  rw [((hperm.map Sigma.snd).map id).sum_eq, map_map, map_map, map_map]
  rfl

def CarefulStep (c : Cache) (act : Act) (c' : Cache) : Prop := c.Careful act ∧ c.step act = some c'

theorem ok_run {c₀ : Cache} (hops : c₀.ops = []) (hmatches : c₀.Matches) (h : Run CarefulStep c₀ acts c) : c.Ok :=
  h.invariant (I := fun _ c => c.Ok) (hmatches.ok hops) fun _ _ _ _ _ hok ha => hok.step ha.1 ha.2

/-- Of a run whose steps are careful: between calls the table and the directory match; an eviction that ran
alone has brought the disk below the limit by what was used longest ago; and every file is that of the
artifact that its path parses to. -/
theorem index_matches_disk {c₀ : Cache} {acts : List Act} (hops : c₀.ops = []) (hmatches : c₀.Matches)
    (h : Run CarefulStep c₀ acts c) :
    (c.ops = [] → c.Matches) ∧ (∀ before alone t, acts = before ++ .evict :: alone → Run Step c₀ before t → t.ops = [] →
        (∀ act ∈ alone, act.isCall = false) → c.ops = [] → 0 < t.maxBytes →
        (c.diskBytes : Int) ≤ c.maxBytes ∧ Evicted t c) ∧
      ∀ p, c.files.find? p ≠ none → ∃ a, pathFor a = some p ∧ parsePath p = some a := by
  have hok := ok_run hops hmatches h
  refine ⟨hok.matches, ?_, fun p hp => ?_⟩
  · rintro before alone t rfl hbefore hidle hcalls hend hpos
    have hrun : Run Step c₀ (before ++ .evict :: alone) c := h.mono fun _ _ _ ha => ha.2
    obtain ⟨t', s, h₁, hbegin, h₂⟩ := hrun.split
    obtain rfl : t' = t := h₁.unique hbefore
    have hevicted : Evicted t' c := evicted_of_run hidle hpos hbegin h₂ hcalls hend
    refine ⟨?_, hevicted⟩
    rw [(hok.matches hend).diskBytes_eq]
    exact hevicted.within
  · obtain ⟨a, ha, hap⟩ := hok.laidOut p hp
    exact ⟨a, hap, ha.parsePath hap⟩

theorem matches_empty (maxBytes : Int) : Matches { maxBytes := maxBytes } where
  sizes a ha := by
    rw [fileOf_eq ha.pathFor_eq]
    rfl
  indexed _ h := absurd rfl h
  laidOut _ h := absurd rfl h

def abcd : Artifact := ⟨[0x61, 0x62, 0x63, 0x64], .debuginfo⟩

def abce : Artifact := ⟨[0x61, 0x62, 0x63, 0x65], .executable⟩

/-- Two artifacts are written, the first is used, and the second is evicted. -/
def evictedOlder : List Act :=
  [.writeAtomic abcd 10, .create 0 [0x31], .rename 0, .touch 0 1, .writeAtomic abce 20, .create 0 [0x32], .rename 0,
    .touch 0 2, .has abcd, .stat 0, .touch 0 5, .evict, .totalBytes 0, .rows 0 [⟨abce, 20, 2⟩, ⟨abcd, 10, 5⟩], .delete 0,
    .remove 0]

theorem index_matches_disk_evictedOlder : ∃ c : Cache, (c.ops = [] ∧ c.files.values = [10]) ∧ (c.ops = [] → c.Matches) ∧
      (∀ before alone t, evictedOlder = before ++ .evict :: alone → Run Step { maxBytes := 15 } before t → t.ops = [] →
        (∀ act ∈ alone, act.isCall = false) → c.ops = [] → 0 < t.maxBytes →
        (c.diskBytes : Int) ≤ c.maxBytes ∧ Evicted t c) ∧
      ∀ p, c.files.find? p ≠ none → ∃ a, pathFor a = some p ∧ parsePath p = some a := by
  obtain ⟨c, hr, hc⟩ := exists_guarded_run step Careful { maxBytes := 15 } evictedOlder
    (fun c => c.ops == [] && c.files.values == [10]) (by decide +kernel)
  rw [Bool.and_eq_true, beq_iff_eq, beq_iff_eq] at hc
  exact ⟨c, hc, index_matches_disk rfl (matches_empty 15) hr⟩

/-- An artifact is used between the deletion of its row and the removal of its file. -/
def usedWhileEvicted : List Act :=
  [.writeAtomic abcd 10, .create 0 [0x31], .rename 0, .touch 0 1, .evict, .totalBytes 0, .rows 0 [⟨abcd, 10, 1⟩],
    .delete 0, .has abcd, .stat 1, .touch 1 2, .remove 0]

/-- The row is there and the file is not; and an executable can have the path of debuginfo. -/
theorem not_index_matches_disk :
    (∃ c, Run Step { maxBytes := 5 } usedWhileEvicted c ∧ c.ops = [] ∧ c.index.find? abcd = some ⟨10, 2⟩ ∧
      c.fileOf abcd = none) ∧
      (pathFor ⟨abcd.buildID ++ debugSuffix, .executable⟩).bind parsePath = some abcd := by
  refine ⟨?_, by decide⟩
  obtain ⟨c, hr, hc⟩ := @exists_run _ _ step { maxBytes := 5 } usedWhileEvicted
    (fun c => c.ops == [] && (c.index.find? abcd == some ⟨10, 2⟩ && c.fileOf abcd == none)) (by decide +kernel)
  rw [Bool.and_eq_true, Bool.and_eq_true, beq_iff_eq, beq_iff_eq, beq_iff_eq] at hc
  exact ⟨c, hr, hc.1, hc.2.1, hc.2.2⟩

end Cache

end PerfAgent.Debuginfod
