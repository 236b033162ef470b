import PerfAgent.Shim.Sampler

/-!
# The replica of the sampler

`internal/gpuabi/sampler.go` computes the chain of sample points a second time, over 64-bit words
throughout.  The gaps are those of the shim.  A sampler that is called by one thread at a time
samples at the points themselves, so the ordinals are those of `SampleSchedule`, until a point
that has been reached has its successor at `2 ^ 64` or beyond.
-/

namespace PerfAgent.Shim

open List

/-! ## The source of the replica -/

/-- splitmix64's finalizer, mirroring `mix`. -/
def sampleMix (x : UInt64) : UInt64 :=
  let x := x ^^^ (x >>> 30)
  let x := x * 0xBF58476D1CE4E5B9
  let x := x ^^^ (x >>> 27)
  let x := x * 0x94D049BB133111EB
  x ^^^ (x >>> 31)

def sampleGap (seq : UInt64) (period : UInt32) (seed : UInt64) : UInt64 :=
  if period ≤ 1 then 1
  else
    let k := (period / 2).toUInt64
    let span := 2 * k + 1
    let r := sampleMix (seed ^^^ (seq * 0x9E3779B97F4A7C15))
    let off := ((r >>> 32) * span) >>> 32
    period.toUInt64 - k + off

/-- The loop from `seq` on; it may not end, so there is a bound on its rounds. -/
def sampleScheduleFrom (launches : UInt64) (period : UInt32) (seed : UInt64) : Nat → UInt64 → Option (List UInt64)
  | 0, _ => none
  | fuel + 1, seq =>
    if seq < launches then
      (sampleScheduleFrom launches period seed fuel (seq + sampleGap seq period seed)).map (seq :: ·)
    else some []

def sampleSchedule (fuel : Nat) (launches : UInt64) (period : UInt32) (seed : UInt64) : Option (List UInt64) :=
  sampleScheduleFrom launches (if period = 0 then 1 else period) seed fuel 0

/-! ## The gaps -/

theorem scaled_toNat (r : UInt64) {span : UInt64} (h : span.toNat < 2 ^ 32) :
    (((r >>> 32) * span) >>> 32).toNat = r.toNat / 2 ^ 32 * span.toNat / 2 ^ 32 := by
  have hr : (r >>> 32).toNat = r.toNat / 2 ^ 32 := by
    rw [UInt64.toNat_shiftRight]
    exact Nat.shiftRight_eq_div_pow _ _
  have hlt : r.toNat / 2 ^ 32 < 2 ^ 32 := Nat.div_lt_of_lt_mul r.toNat_lt
  have hprod : r.toNat / 2 ^ 32 * span.toNat < 2 ^ 64 := by
    have := Nat.mul_lt_mul'' hlt h
    omega
  rw [UInt64.toNat_shiftRight, UInt64.toNat_mul, hr, Nat.mod_eq_of_lt hprod]
  exact Nat.shiftRight_eq_div_pow _ _

theorem scaled_lt (r : UInt64) {span : UInt64} (h : span.toNat < 2 ^ 32) (hpos : 0 < span.toNat) :
    (((r >>> 32) * span) >>> 32).toNat < span.toNat := by
  rw [scaled_toNat r h]
  have hlt : r.toNat / 2 ^ 32 < 2 ^ 32 := Nat.div_lt_of_lt_mul r.toNat_lt
  exact Nat.div_lt_of_lt_mul (Nat.mul_lt_mul_of_pos_right hlt hpos)

theorem toNat_span (period : UInt32) : (2 * (period / 2).toUInt64 + 1).toNat = 2 * (period.toNat / 2) + 1 ∧
      (2 * (period / 2) + 1).toUInt64 = 2 * (period / 2).toUInt64 + 1 := by
  have hlt := period.toNat_lt
  have hdiv : (period / 2).toNat = period.toNat / 2 := UInt32.toNat_div ..
  have hwide : (2 * (period / 2).toUInt64 + 1).toNat = 2 * (period.toNat / 2) + 1 := by
    rw [UInt64.toNat_add, UInt64.toNat_mul, UInt32.toNat_toUInt64, hdiv]
    change (2 * (period.toNat / 2) % 2 ^ 64 + 1) % 2 ^ 64 = _
    omega
  refine ⟨hwide, UInt64.toNat_inj.mp ?_⟩
  rw [hwide, UInt32.toNat_toUInt64, UInt32.toNat_add, UInt32.toNat_mul, hdiv]
  change (2 * (period.toNat / 2) % 2 ^ 32 + 1) % 2 ^ 32 = _
  omega

theorem gapAt_eq (seq : UInt64) (period : UInt32) (seed : UInt64) :
    gapAt seq period seed = sampleGap seq period seed := by
  unfold gapAt sampleGap
  split
  · rfl
  · obtain ⟨hspan, hsame⟩ := toNat_span period
    have hlt := period.toNat_lt
    dsimp only
    rw [hsame]
    have hoff := @scaled_lt (mix (seed ^^^ (seq * 0x9E3779B97F4A7C15))) (2 * (period / 2).toUInt64 + 1)
      (by omega) (by omega)
    refine congrArg _ (UInt64.toNat_inj.mp ?_)
    rw [UInt32.toNat_toUInt64, UInt64.toNat_toUInt32]
    exact Nat.mod_eq_of_lt (by omega)

theorem sampleGap_band (seq : UInt64) {period : UInt32} (hp : period ≠ 0) (seed : UInt64) :
    period.toNat - period.toNat / 2 ≤ (sampleGap seq period seed).toNat ∧
      (sampleGap seq period seed).toNat ≤ period.toNat + period.toNat / 2 := by
  have hpos : period.toNat ≠ 0 := fun h => hp (UInt32.toNat_inj.mp h)
  unfold sampleGap
  split
  · next hle =>
      have hone : period.toNat ≤ 1 := UInt32.le_iff_toNat_le.mp hle
      rw [UInt64.toNat_one]
      omega
  · obtain ⟨hspan, -⟩ := toNat_span period
    have hlt := period.toNat_lt
    dsimp only
    have hoff := @scaled_lt (sampleMix (seed ^^^ (seq * 0x9E3779B97F4A7C15))) (2 * (period / 2).toUInt64 + 1)
      (by omega) (by omega)
    rw [UInt64.toNat_add, UInt64.toNat_sub_of_le, UInt32.toNat_toUInt64, UInt32.toNat_toUInt64, UInt32.toNat_div]
    · change period.toNat - period.toNat / 2 ≤ (period.toNat - period.toNat / 2 + _) % 2 ^ 64 ∧
        (period.toNat - period.toNat / 2 + _) % 2 ^ 64 ≤ _
      omega
    · rw [UInt64.le_iff_toNat_le, UInt32.toNat_toUInt64, UInt32.toNat_toUInt64, UInt32.toNat_div]
      exact Nat.div_le_self _ _

/-! ## The loop over the chain -/

section Schedule

open Sampler (chain)

variable {launches : UInt64} {period : UInt32} {seed : UInt64}

/-- The points of the chain from the `k`-th on. -/
def points (period : UInt32) (seed : UInt64) (k d : Nat) : List UInt64 :=
  (List.range' k d).map fun j => UInt64.ofNat (chain period seed j)

/-- No point that `launches` calls reach has its successor at `2 ^ 64` or beyond. -/
def StaysBelow (period : UInt32) (seed : UInt64) (launches : UInt64) : Prop :=
  ∀ k, chain period seed k < launches.toNat → chain period seed (k + 1) < 2 ^ 64

theorem ofNat_chain_lt {k : Nat} (h : chain period seed k < 2 ^ 64) :
    UInt64.ofNat (chain period seed k) < launches ↔ chain period seed k < launches.toNat := by
  rw [UInt64.lt_iff_toNat_lt, UInt64.toNat_ofNat_of_lt' h]

theorem ofNat_chain_succ (k : Nat) :
    UInt64.ofNat (chain period seed k) + sampleGap (UInt64.ofNat (chain period seed k)) period seed =
      UInt64.ofNat (chain period seed (k + 1)) := by
  rw [chain, UInt64.ofNat_add, UInt64.ofNat_toNat, gapAt_eq]

theorem scheduleFrom_points {k d : Nat} (hbelow : ∀ j < d, chain period seed (k + j) < launches.toNat)
    (hend : launches.toNat ≤ chain period seed (k + d)) (hlt : ∀ j ≤ d, chain period seed (k + j) < 2 ^ 64) :
    sampleScheduleFrom launches period seed (d + 1) (UInt64.ofNat (chain period seed k)) =
      some (points period seed k d) := by
  induction d generalizing k with
  | zero =>
    have hfirst : chain period seed k < 2 ^ 64 := hlt 0 (Nat.le_refl _)
    unfold sampleScheduleFrom
    rw [if_neg fun h => Nat.not_lt_of_le hend ((ofNat_chain_lt hfirst).mp h)]
    rfl
  | succ d ih =>
    have hshift : ∀ j, k + 1 + j = k + (j + 1) := fun j => by omega
    have hrest := @ih (k + 1) (fun j hj => hshift j ▸ hbelow (j + 1) (Nat.succ_lt_succ hj))
      (hshift d ▸ hend) (fun j hj => hshift j ▸ hlt (j + 1) (Nat.succ_le_succ hj))
    have hfirst : chain period seed k < 2 ^ 64 := hlt 0 (Nat.zero_le _)
    unfold sampleScheduleFrom
    rw [if_pos ((ofNat_chain_lt hfirst).mpr (hbelow 0 (Nat.succ_pos d))), ofNat_chain_succ, hrest]
    rfl

theorem scheduleFrom_some {fuel : Nat} {seq : UInt64} {out : List UInt64} (hlt : seq < launches)
    (h : sampleScheduleFrom launches period seed fuel seq = some out) :
    ∃ fuel' rest, out = seq :: rest ∧
      sampleScheduleFrom launches period seed fuel' (seq + sampleGap seq period seed) = some rest := by
  cases fuel with
  | zero => cases h
  | succ fuel =>
    rw [sampleScheduleFrom, if_pos hlt] at h
    obtain ⟨rest, hrest, rfl⟩ := Option.map_eq_some_iff.mp h
    exact ⟨fuel, rest, rfl, hrest⟩

theorem scheduleFrom_wraps {k : Nat} (hk : chain period seed k < launches.toNat)
    (hwrap : 2 ^ 64 ≤ chain period seed (k + 1)) {d : Nat} (hd : d ≤ k) {fuel : Nat} {out : List UInt64}
    (h : sampleScheduleFrom launches period seed fuel (UInt64.ofNat (chain period seed (k - d))) = some out) :
    ¬ out.Pairwise (· < ·) := by
  induction d generalizing fuel out with
  | zero =>
    rw [Nat.sub_zero] at h
    have hrange := hk.trans launches.toNat_lt
    have hfirst := (ofNat_chain_lt hrange).mpr hk
    obtain ⟨fuel', rest, rfl, hrest⟩ := scheduleFrom_some hfirst h
    rw [ofNat_chain_succ] at hrest
    have hgap := (gapAt (UInt64.ofNat (chain period seed k)) period seed).toNat_lt
    have hsucc : chain period seed (k + 1) =
      chain period seed k + (gapAt (UInt64.ofNat (chain period seed k)) period seed).toNat := rfl
    have hback : UInt64.ofNat (chain period seed (k + 1)) < UInt64.ofNat (chain period seed k) := by
      rw [UInt64.lt_iff_toNat_lt, UInt64.toNat_ofNat', UInt64.toNat_ofNat_of_lt' hrange]
      omega
    obtain ⟨-, rest', rfl, -⟩ := scheduleFrom_some (UInt64.lt_trans hback hfirst) hrest
    intro hsorted
    exact UInt64.lt_asymm hback ((pairwise_cons.mp hsorted).1 _ (mem_cons_self ..))
  | succ d ih =>
    have hle : chain period seed (k - (d + 1)) ≤ chain period seed k :=
      (Sampler.chain_strictMono period seed).monotone (Nat.sub_le k (d + 1))
    have hrange := hle.trans_lt (hk.trans launches.toNat_lt)
    obtain ⟨fuel', rest, rfl, hrest⟩ := scheduleFrom_some ((ofNat_chain_lt hrange).mpr (hle.trans_lt hk)) h
    have hnext : k - (d + 1) + 1 = k - d := by omega
    rw [ofNat_chain_succ, hnext] at hrest
    exact fun hsorted => ih (Nat.le_of_succ_le hd) hrest (pairwise_cons.mp hsorted).2

end Schedule

namespace Sampler

/-! ## Calls one after the other -/

def trueAt (returned : List Bool) : List Nat :=
  (List.range returned.length).filter fun i => returned[i]? == some true

theorem trueAt_append (returned : List Bool) (b : Bool) :
    trueAt (returned ++ [b]) = trueAt returned ++ if b then [returned.length] else [] := by
  unfold trueAt
  rw [List.length_append, length_singleton, range_succ, filter_append]
  refine congrArg₂ (· ++ ·) (filter_congr fun i hi => ?_) ?_
  · rw [getElem?_append_left (mem_range.mp hi)]
  · rw [filter_singleton, getElem?_concat_length]
    cases b <;> rfl

theorem mem_trueAt_lt {returned : List Bool} {i : Nat} (h : i ∈ trueAt returned) : i < returned.length :=
  mem_range.mp (mem_of_mem_filter h)

def sampledOrdinals (s : Sampler) : List UInt64 := (trueAt s.returned).map UInt64.ofNat

theorem sampledOrdinals_sorted {s : Sampler} {launches : UInt64} (h : s.returned.length = launches.toNat) :
    s.sampledOrdinals.Pairwise (· < ·) := by
  have hsorted : (trueAt s.returned).Pairwise (· < ·) := pairwise_lt_range.filter _
  refine pairwise_map.mpr (List.Pairwise.imp_of_mem (fun {i j} hi hj hlt => ?_) hsorted)
  have hrange : ∀ k ∈ trueAt s.returned, k < 2 ^ 64 := fun k hk =>
    (mem_trueAt_lt hk).trans (h ▸ launches.toNat_lt)
  rw [UInt64.lt_iff_toNat_lt, UInt64.toNat_ofNat_of_lt' (hrange i hi), UInt64.toNat_ofNat_of_lt' (hrange j hj)]
  exact hlt

def InTurn (s : Sampler) : Action → Prop
  | .enter _ => ∀ pc ∈ s.threads, pc = .idle
  | _ => True

instance (s : Sampler) : DecidablePred s.InTurn
  | .enter _ => List.decidableBAll (fun pc : SamplerPc => pc = .idle) s.threads
  | .load _ | .compareExchange .. | .count _ => .isTrue trivial

abbrev Sequential (period : UInt32) (seed : UInt64) (n : Nat) (as : List Action) (s : Sampler) : Prop :=
  Run (fun s a s' => s.InTurn a ∧ s.step a = some s') (new period seed n) as s

def begun (s : Sampler) : Nat := s.returned.length + s.threads.countP SamplerPc.underWay

/-- Only thread `t` is in a call, at `pc`. -/
structure Only (s : Sampler) (t : Nat) (pc : SamplerPc) : Prop where
  others : ∀ t' q, s.threads[t']? = some q → q = .idle ∨ t' = t ∧ q = pc
  there : pc = .idle ∨ s.threads[t]? = some pc

variable {period : UInt32} {seed : UInt64} {launches : UInt64} {s s' : Sampler} {t : Nat} {m : Nat} {as : List Action}

theorem Only.here {pc q : SamplerPc} {t' : Nat} (h : Only s t pc) (ht : s.threads[t']? = some q) (hq : q ≠ .idle) :
    t' = t ∧ q = pc :=
  (h.others t' q ht).resolve_left hq

theorem only_set {pc pc' : SamplerPc} (h : Only s t pc) (ht : s.threads[t]? = some pc)
    (hs : s'.threads = s.threads.set t pc') :
    Only s' t pc' := by
  obtain ⟨hlt, -⟩ := List.getElem?_eq_some_iff.mp ht
  refine ⟨fun t' q hq => ?_, .inr ?_⟩
  · rw [hs, getElem?_set] at hq
    split at hq
    · next heq => exact .inr ⟨heq.symm, (Option.some.inj hq).symm⟩
    · next hne => exact .inl ((h.others t' q hq).resolve_right fun hthere => hne hthere.1.symm)
  · rw [hs, getElem?_set_self hlt]

theorem length_ret (s : Sampler) (t : Nat) (b : Bool) :
    (s.ret t b).returned.length = s.returned.length + 1 := List.length_append

theorem Only.idle {pc : SamplerPc} (h : Only s t pc) (hidle : ∀ q ∈ s.threads, q = .idle) : pc = .idle :=
  h.there.elim id fun ht => hidle pc (mem_of_getElem? ht)

/-- What the sampler shows while its call is at `pc`, with `m` points claimed by the calls that have
returned. -/
def At (period : UInt32) (seed launches : UInt64) (s : Sampler) (m : Nat) : SamplerPc → Prop
  | .idle => s.observed.toNat = s.returned.length ∧ s.returned.length ≤ chain period seed m ∧
      s.next.toNat = chain period seed m
  | .load n => n.toNat = s.returned.length ∧ s.observed.toNat = s.returned.length + 1 ∧
      s.returned.length < launches.toNat ∧ s.returned.length ≤ chain period seed m ∧
      s.next.toNat = chain period seed m
  | .claim n next => n.toNat = s.returned.length ∧ s.observed.toNat = s.returned.length + 1 ∧
      s.returned.length < launches.toNat ∧ s.returned.length = chain period seed m ∧
      next = s.next ∧ s.next.toNat = chain period seed m
  | .count => s.observed.toNat = s.returned.length + 1 ∧ s.returned.length = chain period seed m ∧
      s.next.toNat = chain period seed (m + 1)

/-- The calls that have returned sampled at the first `m` points. -/
structure OnChain (period : UInt32) (seed launches : UInt64) (s : Sampler) (t m : Nat) (pc : SamplerPc) : Prop where
  period_eq : s.period = period
  seed_eq : s.seed = seed
  only : Only s t pc
  at_pc : At period seed launches s m pc
  ordinals : trueAt s.returned = (List.range m).map (chain period seed)

theorem onChain_new (period : UInt32) (seed launches : UInt64) (n : Nat) :
    OnChain (if period = 0 then 1 else period) seed launches (new period seed n) 0 0 .idle where
  period_eq := rfl
  seed_eq := rfl
  only := ⟨fun _ _ hq => .inl (eq_of_mem_replicate (mem_of_getElem? hq)), .inl rfl⟩
  at_pc := ⟨rfl, Nat.zero_le _, rfl⟩
  ordinals := rfl

theorem OnChain.enter (h : OnChain period seed launches s t m .idle) {t' : Nat} (ht : s.threads[t']? = some .idle)
    (hidle : ∀ q ∈ s.threads, q = .idle) (hlt : s.returned.length < launches.toNat) :
    OnChain period seed launches { s.goto t' (.load s.observed) with observed := s.observed + 1 } t' m
      (.load s.observed) := by
  obtain ⟨hobserved, hle, hnext⟩ := h.at_pc
  have hone : (s.observed + 1).toNat = s.returned.length + 1 := by
    rw [UInt64.toNat_add, UInt64.toNat_one, hobserved]
    exact Nat.mod_eq_of_lt (Nat.lt_of_le_of_lt hlt launches.toNat_lt)
  have honly : Only s t' .idle := ⟨fun t' q hq => .inl (hidle q (mem_of_getElem? hq)), .inl rfl⟩
  exact ⟨h.period_eq, h.seed_eq, only_set honly ht rfl, ⟨hobserved, hone, hlt, hle, hnext⟩, h.ordinals⟩

theorem OnChain.test {pc : SamplerPc} (h : OnChain period seed launches s t m pc) (ht : s.threads[t]? = some pc)
    {n : UInt64} (hat : At period seed launches s m (.load n)) :
    ∃ pc', OnChain period seed launches (s.test t n) t m pc' := by
  obtain ⟨hn, hobserved, hlt, hle, hnext⟩ := hat
  unfold Sampler.test
  split
  · next hge =>
      have hreached : chain period seed m ≤ s.returned.length := by
        rw [← hnext, ← hn]
        exact UInt64.le_iff_toNat_le.mp hge
      exact ⟨_, h.period_eq, h.seed_eq, only_set h.only ht rfl,
        ⟨hn, hobserved, hlt, Nat.le_antisymm hle hreached, rfl, hnext⟩, h.ordinals⟩
  · next hge =>
      have hbefore : s.returned.length < chain period seed m := by
        rw [← hnext, ← hn]
        exact UInt64.lt_iff_toNat_lt.mp (UInt64.not_le.mp hge)
      refine ⟨.idle, h.period_eq, h.seed_eq, only_set h.only ht rfl, ⟨?_, ?_, hnext⟩, ?_⟩
      · exact hobserved.trans (length_ret s t false).symm
      · exact (length_ret s t false).trans_le hbefore
      · exact (trueAt_append ..).trans ((append_nil _).trans h.ordinals)

theorem OnChain.advance {n next : UInt64} (hstay : StaysBelow period seed launches)
    (h : OnChain period seed launches s t m (.claim n next)) (ht : s.threads[t]? = some (.claim n next)) :
    OnChain period seed launches { s.goto t .count with next := next + gapAt next s.period s.seed } t m .count := by
  obtain ⟨-, hobserved, hlt, heq, rfl, hnext⟩ := h.at_pc
  have hsucc : (s.next + gapAt s.next s.period s.seed).toNat = chain period seed (m + 1) := by
    rw [UInt64.toNat_add, chain, ← hnext, UInt64.ofNat_toNat, h.period_eq, h.seed_eq]
    refine Nat.mod_eq_of_lt ?_
    have hbelow := hstay m (heq ▸ hlt)
    rwa [chain, ← hnext, UInt64.ofNat_toNat] at hbelow
  exact ⟨h.period_eq, h.seed_eq, only_set h.only ht rfl, ⟨hobserved, heq, hsucc⟩, h.ordinals⟩

theorem OnChain.count (h : OnChain period seed launches s t m .count) (ht : s.threads[t]? = some .count) :
    OnChain period seed launches { s.ret t true with sampled := s.sampled + 1 } t (m + 1) .idle := by
  obtain ⟨hobserved, heq, hnext⟩ := h.at_pc
  refine ⟨h.period_eq, h.seed_eq, only_set h.only ht rfl, ⟨?_, ?_, hnext⟩, ?_⟩
  · exact hobserved.trans (length_ret s t true).symm
  · refine (length_ret s t true).trans_le ?_
    rw [heq]
    exact chain_strictMono period seed (Nat.lt_succ_self m)
  · refine (trueAt_append ..).trans ?_
    rw [if_pos rfl, h.ordinals, range_succ, map_append, heq]
    rfl

theorem begun_step {a : Action} (h : s.step a = some s') : s.begun ≤ s'.begun := by
  have hgoto : ∀ {pc pc' : SamplerPc} {t : Nat}, s.threads[t]? = some pc →
      (s.threads.set t pc').countP SamplerPc.underWay + pc.underWay.toNat =
        s.threads.countP SamplerPc.underWay + pc'.underWay.toNat :=
    fun ht => countP_set_add ht SamplerPc.underWay _
  have htest : ∀ {pc : SamplerPc} {t : Nat} {n : UInt64}, s.threads[t]? = some pc → pc.underWay = true →
      s.begun ≤ (s.test t n).begun := by
    intro pc t n ht hpc
    have h₁ := @hgoto pc (.claim n s.next) t ht
    have h₂ := @hgoto pc .idle t ht
    rw [hpc] at h₁ h₂
    unfold Sampler.test begun
    split
    · exact Nat.add_le_add_left (Nat.le_of_add_le_add_right h₁.ge) _
    · rw [length_ret]
      change _ ≤ _ + 1 + (s.threads.set t .idle).countP SamplerPc.underWay
      simp only [SamplerPc.underWay, Bool.toNat_true, Bool.toNat_false] at h₂
      omega
  cases a with
  | enter t =>
    simp only [Sampler.step] at h
    split at h
    · next ht =>
        cases h
        have h₁ := @hgoto _ (.load s.observed) t ht
        simp only [SamplerPc.underWay, Bool.toNat_true, Bool.toNat_false] at h₁
        exact Nat.add_le_add_left (h₁.ge.trans' (Nat.le_succ _)) _
    · cases h
  | load t =>
    simp only [Sampler.step] at h
    split at h
    · next ht =>
        cases h
        exact htest ht rfl
    · cases h
  | compareExchange t spurious =>
    simp only [Sampler.step] at h
    split at h
    · next ht =>
        split at h
        · cases h
          have h₁ := @hgoto _ .count t ht
          simp only [SamplerPc.underWay, Bool.toNat_true] at h₁
          exact Nat.add_le_add_left (Nat.le_of_add_le_add_right h₁.ge) _
        · cases h
          exact htest ht rfl
    · cases h
  | count t =>
    simp only [Sampler.step] at h
    split at h
    · next ht =>
        cases h
        have h₁ := @hgoto _ .idle t ht
        simp only [SamplerPc.underWay, Bool.toNat_true, Bool.toNat_false] at h₁
        unfold begun
        change _ ≤ (s.returned ++ [true]).length + (s.threads.set t .idle).countP SamplerPc.underWay
        rw [List.length_append, length_singleton]
        omega
    · cases h

theorem OnChain.step {pc : SamplerPc} (hstay : StaysBelow period seed launches)
    (h : OnChain period seed launches s t m pc) {a : Action} (hturn : s.InTurn a) (ha : s.step a = some s')
    (hbegun : s'.begun ≤ launches.toNat) : ∃ t m pc, OnChain period seed launches s' t m pc := by
  cases a with
  | enter t' =>
    simp only [Sampler.step] at ha
    split at ha
    · next ht =>
        cases ha
        cases h.only.idle hturn
        have hset := countP_set_add ht SamplerPc.underWay (.load s.observed)
        simp only [SamplerPc.underWay, Bool.toNat_true, Bool.toNat_false] at hset
        refine ⟨t', m, _, h.enter ht hturn (Nat.lt_of_lt_of_le ?_ hbegun)⟩
        change _ < s.returned.length + (s.threads.set t' (.load s.observed)).countP SamplerPc.underWay
        omega
    · cases ha
  | load t' =>
    simp only [Sampler.step] at ha
    split at ha
    · next ht =>
        cases ha
        obtain ⟨rfl, rfl⟩ := h.only.here ht fun hc => by cases hc
        obtain ⟨pc', h'⟩ := h.test ht h.at_pc
        exact ⟨t', m, pc', h'⟩
    · cases ha
  | compareExchange t' spurious =>
    simp only [Sampler.step] at ha
    split at ha
    · next n next ht =>
        obtain ⟨rfl, rfl⟩ := h.only.here ht fun hc => by cases hc
        split at ha
        · cases ha
          exact ⟨t', m, _, h.advance hstay ht⟩
        · cases ha
          obtain ⟨hn, hobserved, hlt, heq, -, hnext⟩ := h.at_pc
          obtain ⟨pc', h'⟩ := h.test ht ⟨hn, hobserved, hlt, heq.le, hnext⟩
          exact ⟨t', m, pc', h'⟩
    · cases ha
  | count t' =>
    simp only [Sampler.step] at ha
    split at ha
    · next ht =>
        cases ha
        obtain ⟨rfl, rfl⟩ := h.only.here ht fun hc => by cases hc
        exact ⟨t', m + 1, _, h.count ht⟩
    · cases ha

theorem sequential_onChain {n : Nat} (hstay : StaysBelow (if period = 0 then 1 else period) seed launches)
    (h : Sequential period seed n as s) (hlen : s.begun ≤ launches.toNat) :
    ∃ t m pc, OnChain (if period = 0 then 1 else period) seed launches s t m pc := by
  induction h with
  | nil => exact ⟨0, 0, .idle, onChain_new period seed launches n⟩
  | snoc _ hstep ih =>
    obtain ⟨t, m, pc, hon⟩ := ih ((begun_step hstep.2).trans hlen)
    exact hon.step hstay hstep.1 hstep.2 hlen

theorem begun_of_idle (h : ∀ pc ∈ s.threads, pc = .idle) : s.begun = s.returned.length := by
  have hzero : s.threads.countP SamplerPc.underWay = 0 :=
    countP_eq_zero.mpr fun pc hpc => by rw [h pc hpc]; decide
  rw [begun, hzero, Nat.add_zero]

/-- After calls that followed each other, `SampleSchedule` returns the ordinals that were sampled if
and only if no point below the number of calls has its successor at `2 ^ 64` or beyond. -/
theorem schedule_iff {n : Nat} (h : Sequential period seed n as s) (hidle : ∀ pc ∈ s.threads, pc = .idle)
    (hlen : s.returned.length = launches.toNat) :
    (∃ fuel, sampleSchedule fuel launches period seed = some s.sampledOrdinals) ↔
      StaysBelow (if period = 0 then 1 else period) seed launches := by
  constructor
  · rintro ⟨fuel, hout⟩ k hk
    by_contra hwrap
    have hzero : k - k = 0 := Nat.sub_self k
    refine @scheduleFrom_wraps launches _ seed k hk (Nat.le_of_not_lt hwrap) k (Nat.le_refl k) fuel _ ?_
      (sampledOrdinals_sorted hlen)
    rw [hzero]
    exact hout
  · intro hstay
    obtain ⟨t, m, pc, hon⟩ := sequential_onChain hstay h ((begun_of_idle hidle).trans hlen).le
    cases hon.only.idle hidle
    obtain ⟨-, hend, hnext⟩ := hon.at_pc
    have hbelow : ∀ j < m, chain (if period = 0 then 1 else period) seed (0 + j) < launches.toNat := by
      intro j hj
      rw [Nat.zero_add, ← hlen]
      refine mem_trueAt_lt ?_
      rw [hon.ordinals]
      exact mem_map_of_mem (mem_range.mpr hj)
    have hrange : ∀ j ≤ m, chain (if period = 0 then 1 else period) seed (0 + j) < 2 ^ 64 := by
      intro j hj
      rcases Nat.lt_or_eq_of_le hj with hlt | rfl
      · exact (hbelow j hlt).trans launches.toNat_lt
      · rw [Nat.zero_add, ← hnext]
        exact s.next.toNat_lt
    refine ⟨m + 1, (scheduleFrom_points hbelow ?_ hrange).trans ?_⟩
    · rw [Nat.zero_add, ← hlen]
      exact hend
    · unfold sampledOrdinals points
      rw [hon.ordinals, map_map, range_eq_range']
      rfl

theorem staysBelow_of_le (hp : period ≠ 0)
    (h : launches.toNat + (period.toNat + period.toNat / 2) ≤ 2 ^ 64) : StaysBelow period seed launches := by
  intro k hk
  have hgap := (sampleGap_band (UInt64.ofNat (chain period seed k)) hp seed).2
  rw [← gapAt_eq] at hgap
  rw [chain]
  omega

/-- The sampler of the shim and its replica.  The gaps are equal, at least 1, and off the period by
half of it at most; a period of 0 counts as 1.  After calls that followed each other
`SampleSchedule` returns the ordinals that were sampled, if and only if no sample point below the number
of calls has its successor at `2 ^ 64` or beyond. -/
theorem sampler_replica (period : UInt32) (seed : UInt64) :
    (∀ seq, gapAt seq period seed = sampleGap seq period seed ∧ 1 ≤ (gapAt seq period seed).toNat ∧
      max 1 period.toNat - max 1 period.toNat / 2 ≤ (gapAt seq period seed).toNat ∧
      (gapAt seq period seed).toNat ≤ max 1 period.toNat + max 1 period.toNat / 2) ∧
    ∀ (n : Nat) (as : List Action) (s : Sampler) (launches : UInt64), Sequential period seed n as s →
      (∀ pc ∈ s.threads, pc = .idle) → s.returned.length = launches.toNat →
      ((∃ fuel, sampleSchedule fuel launches period seed = some s.sampledOrdinals) ↔
        StaysBelow (if period = 0 then 1 else period) seed launches) := by
  refine ⟨fun seq => ⟨gapAt_eq seq period seed, gapAt_pos seq seed, ?_⟩, fun _ _ _ _ h hidle hlen =>
    schedule_iff h hidle hlen⟩
  rw [gapAt_eq]
  by_cases hp : period = 0
  · subst hp
    have hone : sampleGap seq 0 seed = 1 := if_pos (by decide)
    rw [hone]
    decide
  · have hpos : 1 ≤ period.toNat := Nat.pos_of_ne_zero fun h => hp (UInt32.toNat_inj.mp h)
    rw [Nat.max_eq_right hpos]
    exact sampleGap_band seq hp seed

def threeCalls : List Action :=
  [.enter 0, .load 0, .compareExchange 0 false, .count 0, .enter 0, .load 0, .enter 0, .load 0]

theorem sampler_replica_threeCalls : ∃ s, Sequential 3 kDefaultSeed 1 threeCalls s ∧ s.returned = [true, false, false] ∧
      ∃ fuel, sampleSchedule fuel 3 3 kDefaultSeed = some [0] := by
  obtain ⟨s, hr, h⟩ := exists_guarded_run step InTurn (new 3 kDefaultSeed 1) threeCalls
    (fun s => s.threads == [.idle] && s.returned == [true, false, false]) (by decide +kernel)
  rw [Bool.and_eq_true, beq_iff_eq, beq_iff_eq] at h
  have hidle : ∀ pc ∈ s.threads, pc = .idle := by
    rw [h.1]
    decide
  have hout := ((sampler_replica 3 kDefaultSeed).2 1 threeCalls s 3 hr hidle (by rw [h.2]; rfl)).mpr
    (staysBelow_of_le (by decide) (by decide))
  have hordinals : s.sampledOrdinals = [0] := by
    unfold sampledOrdinals
    rw [h.2]
    decide
  exact ⟨s, hr, h.2, hordinals ▸ hout⟩

theorem step_enter (h : s.threads[t]? = some .idle) :
    s.step (.enter t) = some { s.goto t (.load s.observed) with observed := s.observed + 1 } := by
  simp only [Sampler.step, h]

theorem turn_load {n : UInt64} (h : s.threads[t]? = some (.load n)) :
    s.InTurn (.load t) ∧ s.step (.load t) = some (s.test t n) :=
  ⟨trivial, by simp only [Sampler.step, h]⟩

theorem turn_claim {n : UInt64} (h : s.threads[t]? = some (.claim n s.next)) :
    s.InTurn (.compareExchange t false) ∧ s.step (.compareExchange t false) =
      some { s.goto t .count with next := s.next + gapAt s.next s.period s.seed } :=
  ⟨trivial, by simp only [Sampler.step, h, and_self, if_true]⟩

theorem turn_count (h : s.threads[t]? = some .count) :
    s.InTurn (.count t) ∧ s.step (.count t) = some { s.ret t true with sampled := s.sampled + 1 } :=
  ⟨trivial, by simp only [Sampler.step, h]⟩

theorem exists_return {n : UInt64} {s₀ : Sampler} (hr : Run (fun s a s' => s.InTurn a ∧ s.step a = some s') s₀ as s)
    (h : s.threads = [.load n]) :
    ∃ as' s', Run (fun s a s' => s.InTurn a ∧ s.step a = some s') s₀ as' s' ∧ s'.threads = [.idle] ∧
      s'.returned.length = s.returned.length + 1 := by
  have hset : ∀ pc, s.threads.set 0 pc = [pc] := fun pc => by rw [h]; rfl
  have hthere : s.threads[0]? = some (.load n) := by
    rw [h]
    rfl
  have hr₁ := hr.snoc (turn_load hthere)
  unfold Sampler.test at hr₁
  split at hr₁
  · have hclaim : (s.goto 0 (.claim n s.next)).threads[0]? = some (.claim n s.next) := by
      change (s.threads.set 0 _)[0]? = _
      rw [hset]
      rfl
    have hr₂ := hr₁.snoc (turn_claim hclaim)
    have hcount : ((s.threads.set 0 (.claim n s.next)).set 0 .count)[0]? = some .count := by
      rw [hset]
      rfl
    refine ⟨_, _, hr₂.snoc (turn_count hcount), ?_, List.length_append⟩
    change ((s.threads.set 0 _).set 0 _).set 0 _ = _
    rw [hset]
    rfl
  · exact ⟨_, _, hr₁, hset .idle, length_ret s 0 false⟩

theorem exists_calls (period : UInt32) (seed : UInt64) (k : Nat) :
    ∃ as s, Sequential period seed 1 as s ∧ s.threads = [.idle] ∧ s.returned.length = k := by
  induction k with
  | zero => exact ⟨[], _, .nil, rfl, rfl⟩
  | succ k ih =>
    obtain ⟨as, s, hr, hthreads, hlen⟩ := ih
    have hturn : s.InTurn (.enter 0) := by
      intro pc hpc
      rw [hthreads] at hpc
      exact mem_singleton.mp hpc
    have hload : s.threads.set 0 (.load s.observed) = [.load s.observed] := by
      rw [hthreads]
      rfl
    obtain ⟨as', s', hr', hidle, hlen'⟩ :=
      exists_return (hr.snoc ⟨hturn, step_enter (by rw [hthreads]; rfl)⟩) hload
    exact ⟨as', s', hr', hidle, hlen'.trans (congrArg (· + 1) hlen)⟩

theorem not_staysBelow : ¬ StaysBelow 2 3 0xFFFFFFFFFFFFFFFF := by
  intro h
  have hmono := chain_strictMono 2 3
  have hlaunches : (0xFFFFFFFFFFFFFFFF : UInt64).toNat = 2 ^ 64 - 1 := by decide +kernel
  have hgaps : (gapAt (UInt64.ofNat (2 ^ 64 - 4)) 2 3).toNat ≠ 3 ∧ (gapAt (UInt64.ofNat (2 ^ 64 - 3)) 2 3).toNat ≠ 2 ∧
      (gapAt (UInt64.ofNat (2 ^ 64 - 2)) 2 3).toNat ≠ 1 := by decide +kernel
  -- so every point is below it
  have hall : ∀ k, chain 2 3 k < 2 ^ 64 - 1 := by
    intro k
    induction k with
    | zero => decide
    | succ k ih =>
      have hsucc := h k (hlaunches ▸ ih)
      have hband := (@sampleGap_band (UInt64.ofNat (chain 2 3 k)) 2 (by decide) 3).2
      rw [← gapAt_eq] at hband
      have hpos := @gapAt_pos (UInt64.ofNat (chain 2 3 k)) 2 3
      rw [chain] at hsucc ⊢
      refine Nat.lt_of_le_of_ne (Nat.le_of_lt_succ hsucc) fun heq => ?_
      change _ ≤ 3 at hband
      have hbefore : chain 2 3 k = 2 ^ 64 - 4 ∨ chain 2 3 k = 2 ^ 64 - 3 ∨ chain 2 3 k = 2 ^ 64 - 2 := by omega
      rcases hbefore with h | h | h <;> rw [h] at heq
      · exact hgaps.1 (by omega)
      · exact hgaps.2.1 (by omega)
      · exact hgaps.2.2 (by omega)
  have hle : ∀ k, k ≤ chain 2 3 k := fun k => hmono.le_apply
  obtain ⟨k, hk⟩ : ∃ k, k = 2 ^ 64 := ⟨_, rfl⟩
  have hbelow := (hle k).trans_lt (hall k)
  omega

/-- Two to the 64th less one calls, at a period of 2. -/
theorem not_sampler_replica :
    ¬ ∀ (period : UInt32) (seed : UInt64) (n : Nat) (as : List Action) (s : Sampler) (launches : UInt64),
      Sequential period seed n as s → (∀ pc ∈ s.threads, pc = .idle) → s.returned.length = launches.toNat →
      ∃ fuel, sampleSchedule fuel launches period seed = some s.sampledOrdinals := by
  intro hall
  obtain ⟨as, s, hr, hthreads, hlen⟩ := exists_calls 2 3 (0xFFFFFFFFFFFFFFFF : UInt64).toNat
  have hidle : ∀ pc ∈ s.threads, pc = .idle := by
    rw [hthreads]
    decide
  exact not_staysBelow ((schedule_iff hr hidle hlen).mp (hall 2 3 1 as s _ hr hidle hlen))

end Sampler

end PerfAgent.Shim
