import PerfAgent.Debuginfod.BucketFrames

/-!
# Every stack slot is kept

A call of `routeAndSymbolize` from its addresses to its frames: every slot is written once, with a frame of
its own address, whichever way the map of the buckets is gone through.
-/

namespace PerfAgent.Debuginfod

open List Option

open Procmap (Mapping)
open Symbolize (Frame PtLoad fileOffsetToVirtualAddress)

variable {κ : Type*} {c : Callees κ} {process : UInt64 → Frame} {elf : Name → UInt64 → UInt64 → Frame}

/-! ## The buckets -/

theorem processWrites_ne_outOfRange (c : Callees κ) (b : Batch) : processWrites c b ≠ .error .outOfRange := by
  unfold processWrites
  cases c.symbolizeProcess b.ips <;> nofun

variable {ws : List (Nat × Frame)}

theorem fallbackWrites_answered (ha : c.Answers process elf) {b : Batch} {entries : List (Nat × UInt64)}
    {R : UInt64 → Frame → Prop} {ws' : List (Nat × Frame)} (h : Answered entries R ws)
    (hr : ∀ e ∈ b.entries, ∀ f, c.FromProcess process e.2 f → R e.2 f)
    (hw : (if b.ips = [] then .ok ws else (processWrites c b).map (ws ++ ·)) = Except.ok ws') :
    Answered (entries ++ b.entries) R ws' := by
  split at hw
  · next hb =>
    obtain rfl := Except.ok.inj hw
    have hnil : b.entries = [] := by
      rw [← length_eq_zero_iff, b.length_entries, Batch.indices_eq_nil_of_ips hb, length_nil]
    rw [hnil, append_nil]
    exact h
  · cases hp : processWrites c b with
    | error e => simp [hp, Except.map] at hw
    | ok ws₂ =>
      rw [hp] at hw
      obtain rfl := Except.ok.inj hw
      exact h.append ((processWrites_answered ha hp).mono hr)

theorem bucketWrites_answered (ha : c.Answers process elf) {b : FileBucket} (h : bucketWrites c b = .ok ws) :
    Answered b.held.entries (c.Answer process elf (.bucket b.mapping b.debugPath)) ws := by
  unfold bucketWrites at h
  cases hloads : c.mapperFor b.mapping with
  | none =>
    rw [hloads] at h
    refine (processWrites_answered ha h).mono fun e _ f hf => ?_
    simpa only [Callees.Answer, Callees.mapped, hloads, bind_none] using hf
  | some loads =>
    simp only [hloads] at h
    have hparted := parted_normalize loads b.mapping b.held
    generalize normalize loads b.mapping b.held = n at h hparted
    have hmapped {ip va} (hva : fileOffsetToVirtualAddress loads (ip - b.mapping.start + b.mapping.offset) = va) :
        c.mapped b.mapping ip = va := by
      simpa only [Callees.mapped, hloads, bind_some] using hva
    have hfallback : ∀ e ∈ n.fallback.entries, ∀ f, c.FromProcess process e.2 f →
        c.Answer process elf (.bucket b.mapping b.debugPath) e.2 f := fun e he f hf => by
      simpa only [Callees.Answer, hmapped (hparted.fallback e he)] using hf
    refine Answered.perm ?_ hparted.entries
    by_cases hv : n.virt = []
    · simp only [hv, if_true] at h
      rw [hparted.valid_eq_nil hv]
      exact fallbackWrites_answered ha .nil hfallback h
    · simp only [hv, if_false] at h
      cases helf : c.symbolizeElfVirt b.debugPath n.valid.ips n.virt with
      | none =>
        simp only [helf] at h
        cases hvalid : processWrites c n.valid with
        | error e => simp [hvalid] at h
        | ok ws₁ =>
          simp only [hvalid] at h
          refine fallbackWrites_answered ha ((processWrites_answered ha hvalid).mono fun e he f hf => ?_) hfallback h
          have hip : e.2 ∈ n.valid.ips := n.valid.map_snd_entries ▸ mem_map_of_mem he
          obtain ⟨va, -, hva⟩ := mem_map.mp (hparted.virt ▸ mem_map_of_mem hip)
          simp only [Callees.Answer, hmapped hva.symm]
          exact .inr ⟨hf, fun hp => hp _ _ hparted.length_virt helf⟩
      | some frames =>
        obtain ⟨ws₁, hws, hans⟩ := hparted.frameWrites_answered ha helf
        simp only [helf, hws] at h
        refine fallbackWrites_answered ha (hans.mono fun e _ f hf => ?_) hfallback h
        obtain ⟨va, hva, hf⟩ := hf
        simp only [Callees.Answer, hmapped hva]
        refine .inl ⟨hf, fun hr => ?_⟩
        rw [hr _ _ hparted.length_virt] at helf
        cases helf

theorem bucketWrites_ne_outOfRange (ha : c.Answers process elf) (b : FileBucket) :
    bucketWrites c b ≠ .error .outOfRange := by
  unfold bucketWrites
  cases c.mapperFor b.mapping with
  | none => exact processWrites_ne_outOfRange c b.held
  | some loads =>
    simp only
    have hparted := parted_normalize loads b.mapping b.held
    generalize normalize loads b.mapping b.held = n at hparted
    have hfallback : ∀ ws : List (Nat × Frame),
        (if n.fallback.ips = [] then .ok ws else (processWrites c n.fallback).map (ws ++ ·)) ≠
          .error Halt.outOfRange := fun ws => by
      split
      · nofun
      · have hne := processWrites_ne_outOfRange c n.fallback
        cases h : processWrites c n.fallback with
        | error e =>
          rw [h] at hne
          exact hne
        | ok ws => nofun
    by_cases hv : n.virt = []
    · simp only [hv, if_true]
      exact hfallback []
    · simp only [hv, if_false]
      cases helf : c.symbolizeElfVirt b.debugPath n.valid.ips n.virt with
      | none =>
        have hne := processWrites_ne_outOfRange c n.valid
        cases h : processWrites c n.valid with
        | error e =>
          rw [h] at hne
          simpa using hne
        | ok ws => exact hfallback ws
      | some frames =>
        obtain ⟨ws, hws, -⟩ := hparted.frameWrites_answered ha helf
        simp only [hws]
        exact hfallback ws

/-- What `symbolizeFileBuckets` writes. -/
def bucketsWrites (c : Callees κ) : List FileBucket → Except Halt (List (Nat × Frame))
  | [] => .ok []
  | b :: bs =>
    match bucketWrites c b with
    | .error e => .error e
    | .ok ws => (bucketsWrites c bs).map (ws ++ ·)

variable {bs : List FileBucket}

theorem bucketsWrites_cons {b : FileBucket} {ws₁ ws₂ : List (Nat × Frame)} (hb : bucketWrites c b = .ok ws₁)
    (hbs : bucketsWrites c bs = .ok ws₂) : bucketsWrites c (b :: bs) = .ok (ws₁ ++ ws₂) := by
  simp only [bucketsWrites, hb, hbs, Except.map]

theorem bucketsWrites_cons_eq_ok {b : FileBucket} (h : bucketsWrites c (b :: bs) = .ok ws) :
    ∃ ws₁ ws₂, bucketWrites c b = .ok ws₁ ∧ bucketsWrites c bs = .ok ws₂ ∧ ws = ws₁ ++ ws₂ := by
  unfold bucketsWrites at h
  cases hb : bucketWrites c b with
  | error e => simp [hb] at h
  | ok ws₁ =>
    cases hbs : bucketsWrites c bs with
    | error e => simp [hb, hbs, Except.map] at h
    | ok ws₂ =>
      simp only [hb, hbs, Except.map, Except.ok.injEq] at h
      exact ⟨ws₁, ws₂, rfl, rfl, h.symm⟩

theorem bucketsWrites_failed (ha : c.Answers process elf) {e : Halt} (h : bucketsWrites c bs = .error e) :
    e = .failed := by
  induction bs generalizing e with
  | nil => cases h
  | cons b bs ih =>
    unfold bucketsWrites at h
    cases hb : bucketWrites c b with
    | error e' =>
      simp only [hb, Except.error.injEq] at h
      subst h
      cases e' with
      | failed => rfl
      | outOfRange => exact absurd hb (bucketWrites_ne_outOfRange ha b)
    | ok ws =>
      cases hbs : bucketsWrites c bs with
      | error e' =>
        simp only [hb, hbs, Except.map, Except.error.injEq] at h
        exact h ▸ ih hbs
      | ok ws' => simp [hb, hbs, Except.map] at h

theorem symbolizeFileBuckets_eq (c : Callees κ) (bs : List FileBucket) (out : List Frame) (p : Progress κ) :
    (symbolizeFileBuckets c bs out p).1 = (bucketsWrites c bs).map (scatter · out) := by
  induction bs generalizing out p with
  | nil => rfl
  | cons b bs ih =>
    have hb := symbolizeFileBucket_eq c b out p
    unfold symbolizeFileBuckets bucketsWrites
    generalize symbolizeFileBucket c b out p = q at hb ⊢
    obtain ⟨r, p'⟩ := q
    cases hw : bucketWrites c b with
    | error e =>
      rw [hw] at hb
      obtain rfl : r = .error e := hb
      rfl
    | ok ws =>
      rw [hw] at hb
      obtain rfl : r = .ok (scatter ws out) := hb
      simp only [ih]
      cases bucketsWrites c bs with
      | error e => rfl
      | ok ws' => exact congrArg Except.ok (scatter_append ws ws' out).symm

theorem classified_symbolizeFileBuckets (c : Callees κ) (bs : List FileBucket) (out : List Frame) (p : Progress κ) :
    (symbolizeFileBuckets c bs out p).2.stats.classified = p.stats.classified := by
  induction bs generalizing out p with
  | nil => rfl
  | cons b bs ih =>
    have hb := classified_symbolizeFileBucket c b out p
    unfold symbolizeFileBuckets
    generalize symbolizeFileBucket c b out p = q at hb ⊢
    rcases q with ⟨e | out', p'⟩
    · exact hb
    · exact (ih out' p').trans hb

theorem mem_bucketsWrites (h : bucketsWrites c bs = .ok ws) {w : Nat × Frame} (hw : w ∈ ws) :
    ∃ b ∈ bs, ∃ ws', bucketWrites c b = .ok ws' ∧ w ∈ ws' := by
  induction bs generalizing ws with
  | nil =>
    obtain rfl := Except.ok.inj h
    cases hw
  | cons b bs ih =>
    obtain ⟨ws₁, ws₂, hb, hbs, rfl⟩ := bucketsWrites_cons_eq_ok h
    rcases mem_append.mp hw with hw | hw
    · exact ⟨b, mem_cons_self, ws₁, hb, hw⟩
    · obtain ⟨b', hb', hw'⟩ := ih hbs hw
      exact ⟨b', mem_cons_of_mem b hb', hw'⟩

theorem indices_bucketsWrites (ha : c.Answers process elf) (h : bucketsWrites c bs = .ok ws) :
    ((ws.map Prod.fst : List Nat) : Multiset Nat) = (bs.map fun b => (b.held.indices : Multiset Nat)).sum := by
  induction bs generalizing ws with
  | nil =>
    obtain rfl := Except.ok.inj h
    rfl
  | cons b bs ih =>
    obtain ⟨ws₁, ws₂, hb, hbs, rfl⟩ := bucketsWrites_cons_eq_ok h
    have hperm := (bucketWrites_answered ha hb).indices
    rw [b.held.map_fst_entries] at hperm
    rw [map_append, ← Multiset.coe_add, ih hbs, map_cons, sum_cons, Multiset.coe_eq_coe.mpr hperm]

theorem bucketsWrites_perm {bs' : List FileBucket} (h : bs.Perm bs') (hws : bucketsWrites c bs = .ok ws) :
    ∃ ws', bucketsWrites c bs' = .ok ws' ∧ ws.Perm ws' := by
  induction h generalizing ws with
  | nil => exact ⟨ws, hws, .rfl⟩
  | cons b _ ih =>
    obtain ⟨ws₁, ws₂, hb, hbs, rfl⟩ := bucketsWrites_cons_eq_ok hws
    obtain ⟨ws', hws', hperm⟩ := ih hbs
    exact ⟨ws₁ ++ ws', bucketsWrites_cons hb hws', hperm.append_left ws₁⟩
  | swap b b' bs =>
    obtain ⟨ws₁, rest, hb', hrest, rfl⟩ := bucketsWrites_cons_eq_ok hws
    obtain ⟨ws₂, ws₃, hb, hbs, rfl⟩ := bucketsWrites_cons_eq_ok hrest
    exact ⟨ws₂ ++ (ws₁ ++ ws₃), bucketsWrites_cons hb (bucketsWrites_cons hb' hbs), perm_append_comm_assoc ws₁ ws₂ ws₃⟩
  | trans _ _ ih₁ ih₂ =>
    obtain ⟨ws₁, hws₁, hperm₁⟩ := ih₁ hws
    obtain ⟨ws₂, hws₂, hperm₂⟩ := ih₂ hws₁
    exact ⟨ws₂, hws₂, hperm₁.trans hperm₂⟩

/-! ## A call -/

def IsOrder (order : List FileBucket → List FileBucket) : Prop := ∀ bs, (order bs).Perm bs

def callWrites (c : Callees κ) (st : Routing κ) (bs : List FileBucket) : Except Halt (List (Nat × Frame)) :=
  match (if st.processBatch.ips = [] then .ok [] else processWrites c st.processBatch) with
  | .error e => .error e
  | .ok ws => (bucketsWrites c bs).map (ws ++ ·)

theorem finishFrames_eq (c : Callees κ) (st : Routing κ) (bs : List FileBucket) (ips : List UInt64)
    (ws : List (Nat × Frame)) (out : List Frame) :
    (finishFrames c st bs ips (scatter ws out)).1 =
      ((bucketsWrites c bs).map (ws ++ ·)).map fun ws => blankSkipped st.skipped ips (scatter ws out) := by
  have hb := symbolizeFileBuckets_eq c bs (scatter ws out) st.toProgress
  unfold finishFrames
  generalize symbolizeFileBuckets c bs (scatter ws out) st.toProgress = q at hb ⊢
  obtain ⟨r, p'⟩ := q
  obtain rfl : r = _ := hb
  cases bucketsWrites c bs with
  | error e => rfl
  | ok ws' => simp only [Except.map, scatter_append]

theorem classified_finishFrames (c : Callees κ) (st : Routing κ) (bs : List FileBucket) (ips : List UInt64)
    (out : List Frame) : (finishFrames c st bs ips out).2.stats.classified = st.stats.classified := by
  have hb := classified_symbolizeFileBuckets c bs out st.toProgress
  unfold finishFrames
  generalize symbolizeFileBuckets c bs out st.toProgress = q at hb ⊢
  rcases q with ⟨e | out', p'⟩
  · exact hb
  · exact hb

theorem routeAndSymbolize_eq (c : Callees κ) (mappings : List Mapping) (order : List FileBucket → List FileBucket)
    (ips : List UInt64) (p : Progress κ) :
    (routeAndSymbolize c mappings order ips p).1 = (callWrites c (routeIPs c mappings { p with } ips)
        (order (routeIPs c mappings { p with } ips).fileBuckets.values)).map fun ws =>
          blankSkipped (routeIPs c mappings { p with } ips).skipped ips
            (scatter ws (List.replicate ips.length (bareFrame 0))) := by
  unfold routeAndSymbolize callWrites
  simp only
  generalize routeIPs c mappings { p with } ips = st
  by_cases hips : st.processBatch.ips = []
  · simp only [hips, if_true]
    exact finishFrames_eq c st _ ips [] _
  · simp only [hips, if_false, processInto_eq]
    cases processWrites c st.processBatch with
    | error e => rfl
    | ok ws => exact finishFrames_eq c st _ ips ws _

theorem classified_routeAndSymbolize (c : Callees κ) {mappings : List Mapping} (hdisj : mappings.Pairwise Apart)
    (order : List FileBucket → List FileBucket) (ips : List UInt64) (p : Progress κ) :
    (routeAndSymbolize c mappings order ips p).2.stats.classified = p.stats.classified + ips.length := by
  have hst := (routed_routeIPs c hdisj p ips).counted
  unfold routeAndSymbolize
  simp only
  generalize routeIPs c mappings { p with } ips = st at hst
  by_cases hips : st.processBatch.ips = []
  · simp only [hips, if_true]
    exact (classified_finishFrames c st _ ips _).trans hst
  · simp only [hips, if_false]
    cases processInto c st.processBatch (List.replicate ips.length (bareFrame 0)) with
    | error e => exact hst
    | ok out => exact (classified_finishFrames c st _ ips out).trans hst

variable {ips : List UInt64}

/-- The writes of a call and the addresses that it skips have each position once, and each write is one
that the address may have. -/
theorem callWrites_spec (ha : c.Answers process elf) {mappings : List Mapping} {before : Nat} {st : Routing κ}
    (h : Routed mappings before ips st) (hbs : bs.Perm st.fileBuckets.values) (hws : callWrites c st bs = .ok ws) :
    (ws.map Prod.fst ++ st.skipped).Perm (List.range ips.length) ∧
      ∀ w ∈ ws, ∃ ip place, ips[w.1]? = some ip ∧ st.place mappings ip = some place ∧
        c.Answer process elf place ip w.2 := by
  unfold callWrites at hws
  have hprocess : ∃ ws₁ ws₂, ws = ws₁ ++ ws₂ ∧ bucketsWrites c bs = .ok ws₂ ∧
      Answered st.processBatch.entries (c.FromProcess process) ws₁ := by
    have happend : ∀ ws₁, (bucketsWrites c bs).map (ws₁ ++ ·) = .ok ws →
        ∃ ws₂, ws = ws₁ ++ ws₂ ∧ bucketsWrites c bs = .ok ws₂ := fun ws₁ h => by
      cases hb : bucketsWrites c bs with
      | error e => simp [hb, Except.map] at h
      | ok ws₂ =>
        simp only [hb, Except.map, Except.ok.injEq] at h
        exact ⟨ws₂, h.symm, rfl⟩
    by_cases hips : st.processBatch.ips = []
    · simp only [hips, if_true] at hws
      obtain ⟨ws₂, heq, hb⟩ := happend [] hws
      have hnil : st.processBatch.entries = [] := by
        rw [← length_eq_zero_iff, Batch.length_entries, Batch.indices_eq_nil_of_ips hips, length_nil]
      exact ⟨[], ws₂, heq, hb, hnil ▸ .nil⟩
    · simp only [hips, if_false] at hws
      cases hp : processWrites c st.processBatch with
      | error e => simp [hp] at hws
      | ok ws₁ =>
        simp only [hp] at hws
        obtain ⟨ws₂, heq, hb⟩ := happend ws₁ hws
        exact ⟨ws₁, ws₂, heq, hb, processWrites_answered ha hp⟩
  obtain ⟨ws₁, ws₂, rfl, hb, hans⟩ := hprocess
  have hfind : ∀ b ∈ bs, ∃ s, st.fileBuckets.find? s = some b := fun b hb =>
    AssocMap.mem_values_iff.mp (hbs.subset hb)
  constructor
  · have hsum := indices_bucketsWrites ha hb
    rw [(hbs.map _).sum_eq] at hsum
    have hperm := hans.indices
    rw [Batch.map_fst_entries] at hperm
    have hrange : ((List.range ips.length : List Nat) : Multiset Nat) = Multiset.range ips.length := rfl
    rw [← Multiset.coe_eq_coe, hrange, h.indices, map_append, ← Multiset.coe_add, ← Multiset.coe_add, hsum,
      Multiset.coe_eq_coe.mpr hperm, add_assoc, add_comm (List.sum _)]
    rfl
  · intro w hw
    rcases mem_append.mp hw with hw | hw
    · obtain ⟨ip, he, hf⟩ := hans.frames w hw
      obtain ⟨hip, hplace⟩ := h.process _ he
      exact ⟨ip, .process, hip, hplace, hf⟩
    · obtain ⟨b, hmem, ws', hws', hw'⟩ := mem_bucketsWrites hb hw
      obtain ⟨ip, he, hf⟩ := (bucketWrites_answered ha hws').frames w hw'
      obtain ⟨s, hs⟩ := hfind b hmem
      obtain ⟨hip, hplace⟩ := h.held s b hs _ he
      exact ⟨ip, _, hip, hplace, hf⟩

theorem routeAndSymbolize_slot (ha : c.Answers process elf) {mappings : List Mapping} (hdisj : mappings.Pairwise Apart)
    {order : List FileBucket → List FileBucket} (horder : IsOrder order) {p p' : Progress κ} {out : List Frame}
    (hrun : routeAndSymbolize c mappings order ips p = (.ok out, p')) :
    out.length = ips.length ∧ ∀ (i : Nat) (ip : UInt64), ips[i]? = some ip → ∃ f place, out[i]? = some f ∧
      (routeIPs c mappings { p with } ips).place mappings ip = some place ∧ c.Answer process elf place ip f := by
  have hrouted := routed_routeIPs c hdisj p ips
  have heq := routeAndSymbolize_eq c mappings order ips p
  rw [hrun] at heq
  generalize routeIPs c mappings { p with } ips = st at heq hrouted ⊢
  cases hws : callWrites c st (order st.fileBuckets.values) with
  | error e => simp [hws, Except.map] at heq
  | ok ws =>
    simp only [hws, Except.map, Except.ok.injEq] at heq
    obtain ⟨hperm, hanswer⟩ := callWrites_spec ha hrouted (horder _) hws
    subst heq
    have hlen : (scatter ws (List.replicate ips.length (bareFrame 0))).length = ips.length := by simp
    refine ⟨by rw [blankSkipped, length_mapIdx, hlen], fun i ip hip => ?_⟩
    have hi : i < ips.length := (List.getElem?_eq_some_iff.mp hip).1
    have hnodup : (ws.map Prod.fst ++ st.skipped).Nodup := hperm.nodup_iff.mpr nodup_range
    rw [blankSkipped, getElem?_mapIdx]
    rcases mem_append.mp (hperm.symm.subset (mem_range.mpr hi)) with hmem | hmem
    · obtain ⟨⟨_, f⟩, hw, rfl⟩ := mem_map.mp hmem
      obtain ⟨ip', place, hip', hplace, hf⟩ := hanswer _ hw
      obtain rfl : ip = ip' := Option.some.inj (hip.symm.trans hip')
      refine ⟨f, place, ?_, hplace, hf⟩
      rw [getElem?_scatter_of_mem (nodup_append.mp hnodup).1 hw (by simpa using hi), map_some,
        if_neg fun hs => (nodup_append.mp hnodup).2.2 _ hmem _ hs rfl]
    · obtain ⟨ip', hip', hplace⟩ := hrouted.skipped i hmem
      obtain rfl : ip = ip' := Option.some.inj (hip.symm.trans hip')
      refine ⟨bareFrame ip, .skip, ?_, hplace, rfl⟩
      rw [getElem?_eq_getElem (Nat.lt_of_lt_of_eq hi hlen.symm), map_some, if_pos hmem,
        getD_eq_getElem?_getD, hip, getD_some]

theorem routeAndSymbolize_order (ha : c.Answers process elf) {mappings : List Mapping}
    (hdisj : mappings.Pairwise Apart) {order order' : List FileBucket → List FileBucket} (horder : IsOrder order)
    (horder' : IsOrder order') (ips : List UInt64) (p : Progress κ) :
    (routeAndSymbolize c mappings order ips p).1 = (routeAndSymbolize c mappings order' ips p).1 := by
  have hrouted := routed_routeIPs c hdisj p ips
  rw [routeAndSymbolize_eq, routeAndSymbolize_eq]
  generalize routeIPs c mappings { p with } ips = st at hrouted ⊢
  have hperm : (order st.fileBuckets.values).Perm (order' st.fileBuckets.values) :=
    (horder _).trans (horder' _).symm
  cases hp : (if st.processBatch.ips = [] then .ok [] else processWrites c st.processBatch) with
  | error e => simp only [callWrites, hp]
  | ok ws₁ =>
    cases hb : bucketsWrites c (order st.fileBuckets.values) with
    | error e =>
      cases hb' : bucketsWrites c (order' st.fileBuckets.values) with
      | error e' =>
        simp only [callWrites, hp, hb, hb', bucketsWrites_failed ha hb, bucketsWrites_failed ha hb']
      | ok ws =>
        obtain ⟨ws', hws', -⟩ := bucketsWrites_perm hperm.symm hb'
        rw [hws'] at hb
        cases hb
    | ok ws₂ =>
      obtain ⟨ws₂', hb', hws⟩ := bucketsWrites_perm hperm hb
      have hcall : callWrites c st (order st.fileBuckets.values) = .ok (ws₁ ++ ws₂) := by
        simp only [callWrites, hp, hb, Except.map]
      have hcall' : callWrites c st (order' st.fileBuckets.values) = .ok (ws₁ ++ ws₂') := by
        simp only [callWrites, hp, hb', Except.map]
      have hnodup : ((ws₁ ++ ws₂).map Prod.fst).Nodup :=
        (nodup_append.mp ((callWrites_spec ha hrouted (horder _) hcall).1.nodup_iff.mpr nodup_range)).1
      rw [hcall, hcall']
      simp only [Except.map, scatter_perm (hws.append_left ws₁) hnodup]

/-- The frames at two positions with the same address, mapping and route are the same, in one call or in two. -/
def Callees.SettledByAddress (c : Callees κ) (mappings : List Mapping) : Prop :=
  ∀ order order', IsOrder order → IsOrder order' → ∀ ips ips' p p' out out' q q',
    routeAndSymbolize c mappings order ips p = (.ok out, q) →
    routeAndSymbolize c mappings order' ips' p' = (.ok out', q') →
    ∀ (i j : Nat) (ip : UInt64), ips[i]? = some ip → ips'[j]? = some ip →
      (routeIPs c mappings { p with } ips).place mappings ip = (routeIPs c mappings { p' with } ips').place mappings ip →
      out[i]? = out'[j]?

/-- A call that has frames has one for each address, in its slot and for it.  The frame is bare or one that
the address, its mapping and its route account for; where process-mode never stops short and a debug file
parses or not whatever is asked of it, they settle it.  The order of the buckets does not show, and each
address is counted under one route. -/
theorem routeAndSymbolize_slots (ha : c.Answers process elf) {mappings : List Mapping}
    (hdisj : mappings.Pairwise Apart) :
    (∀ order, IsOrder order → ∀ ips p out p', routeAndSymbolize c mappings order ips p = (.ok out, p') →
      out.map Frame.address = ips ∧ ∀ (i : Nat) (ip : UInt64), ips[i]? = some ip → ∃ f place, out[i]? = some f ∧
          (routeIPs c mappings { p with } ips).place mappings ip = some place ∧ c.Answer process elf place ip f) ∧
    (c.Complete → (∀ path, c.Parses path ∨ c.Refuses path) → c.SettledByAddress mappings) ∧
    (∀ order order', IsOrder order → IsOrder order' → ∀ ips p,
      (routeAndSymbolize c mappings order ips p).1 = (routeAndSymbolize c mappings order' ips p).1) ∧
    ∀ order ips p, (routeAndSymbolize c mappings order ips p).2.stats.classified = p.stats.classified + ips.length := by
  refine ⟨fun order horder ips p out p' hrun => ?_, fun hc hs => ?_,
    fun order order' horder horder' => routeAndSymbolize_order ha hdisj horder horder',
    fun order => classified_routeAndSymbolize c hdisj order⟩
  · obtain ⟨hlen, hslot⟩ := routeAndSymbolize_slot ha hdisj horder hrun
    refine ⟨ext_getElem? fun i => ?_, hslot⟩
    rw [getElem?_map]
    cases hip : ips[i]? with
    | none =>
      rw [List.getElem?_eq_none_iff, ← hlen, ← List.getElem?_eq_none_iff] at hip
      rw [hip, map_none]
    | some ip =>
      obtain ⟨f, place, hf, -, hans⟩ := hslot i ip hip
      rw [hf, map_some, hans.address ha]
  · intro order order' horder horder' ips ips' p p' out out' q q' hrun hrun' i j ip hi hj hroute
    obtain ⟨f, place, hf, hplace, hans⟩ := (routeAndSymbolize_slot ha hdisj horder hrun).2 i ip hi
    obtain ⟨f', place', hf', hplace', hans'⟩ := (routeAndSymbolize_slot ha hdisj horder' hrun').2 j ip hj
    obtain rfl : place = place' := by rwa [hroute, hplace', Option.some.injEq, eq_comm] at hplace
    rw [hf, hf', hans.unique hc hs hans']

def debugFiles : Callees Unit where
  classify m _ := ({ route := .fileMode, debugPath := m.path }, ())
  markBadDebug _ _ := ()
  mapperFor _ := some [{ off := 0, vaddr := 4096, filesz := 64 }]
  symbolizeProcess ips := some (ips.map fun ip => { address := ip, name := Symbolize.hexName ip })
  symbolizeElfVirt path ips vas :=
    some (List.zipWith (fun ip va => { address := ip, name := Symbolize.hexName va, module := path }) ips vas)

theorem debugFiles_answers : debugFiles.Answers (fun ip => { address := ip, name := Symbolize.hexName ip })
    (fun path ip va => { address := ip, name := Symbolize.hexName va, module := path }) where
  process_address _ := rfl
  elf_address _ _ _ := rfl
  process_prefix ips frames h := by
    obtain rfl := Option.some.inj h
    exact prefix_rfl
  elf_eq _ _ _ _ _ h := (Option.some.inj h).symm

/-- One address that the file has, one behind its segment, one outside of every mapping, and the first again. -/
theorem routeAndSymbolize_slots_debugFiles :
    [({ address := 8200, name := Symbolize.hexName 4104, module := [97] } : Frame),
      { address := 8300, name := Symbolize.hexName 8300 }, { address := 16, name := Symbolize.hexName 16 },
      { address := 8200, name := Symbolize.hexName 4104, module := [97] }].map Frame.address = [8200, 8300, 16, 8200] :=
  ((routeAndSymbolize_slots debugFiles_answers
    (pairwise_singleton Apart { path := [97], start := 8192, limit := 12288 })).1
    id (fun _ => .rfl) [8200, 8300, 16, 8200] { classifier := () } _ _ rfl).1

def firstOnly : Callees Unit where
  classify _ _ := ({ route := .processMode }, ())
  markBadDebug _ _ := ()
  mapperFor _ := none
  symbolizeProcess ips := some (ips.take 1 |>.map fun ip => { address := ip, name := Symbolize.hexName ip })
  symbolizeElfVirt _ _ _ := none

theorem firstOnly_answers : firstOnly.Answers (fun ip => { address := ip, name := Symbolize.hexName ip })
    (fun _ ip _ => bareFrame ip) where
  process_address _ := rfl
  elf_address _ _ _ := rfl
  process_prefix ips frames h := by
    obtain rfl := Option.some.inj h
    exact ( take_prefix 1 ips).map _
  elf_eq _ _ _ _ _ h := by cases h

/-- An address keeps its name in front of another one and loses it behind. -/
theorem not_settledByAddress_firstOnly :
    ∃ (process : UInt64 → Frame) (elf : Name → UInt64 → UInt64 → Frame), firstOnly.Answers process elf ∧
      List.Pairwise Apart [] ∧ ¬ firstOnly.SettledByAddress [] := by
  refine ⟨_, _, firstOnly_answers, .nil, fun h => ?_⟩
  have heq := h id id (fun _ => .rfl) (fun _ => .rfl) [16, 32] [32, 16] { classifier := () } { classifier := () }
    [{ address := 16, name := Symbolize.hexName 16 }, bareFrame 32]
    [{ address := 32, name := Symbolize.hexName 32 }, bareFrame 16] _ _ rfl rfl 0 1 16 rfl rfl rfl
  simp [bareFrame, Symbolize.hexName, Pprof.ascii] at heq

end PerfAgent.Debuginfod
