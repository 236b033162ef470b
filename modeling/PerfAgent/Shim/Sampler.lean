import Mathlib.Data.Nat.Count
import Mathlib.Order.WellFounded
import PerfAgent.Lib.Lists
import PerfAgent.Lib.Machine

/-!
# The launch sampler

One launch in `period` carries a CPU stack (`shim/core/sampler.h`, replicated for the offline
count in `internal/gpuabi/sampler.go`).  The points at which stacks are due form a chain that
depends on the period and the seed alone; a call of `should_sample` takes an ordinal, and
claims the next point of the chain if its ordinal has reached it.

The ordinal and the next point are two atomics, so calls overtake each other between them.  A
call claims at most one point: where it claims one although it has reached the following one
too, another call must be under way that can still claim that one (`LeavesClaimant`), or the
point stays unclaimed.  Under that condition the number of stacks is the number of points
below the number of calls.
-/

namespace PerfAgent.Shim

open List

def mix (x : UInt64) : UInt64 :=
  let x := x ^^^ (x >>> 30)
  let x := x * 0xBF58476D1CE4E5B9
  let x := x ^^^ (x >>> 27)
  let x := x * 0x94D049BB133111EB
  x ^^^ (x >>> 31)

/-- The gap from the sample point at `seq` to the next one. -/
def gapAt (seq : UInt64) (period : UInt32) (seed : UInt64) : UInt64 :=
  if period ≤ 1 then 1
  else
    let k := period / 2
    let span := 2 * k + 1
    let r := mix (seed ^^^ (seq * 0x9E3779B97F4A7C15))
    let off := (((r >>> 32) * span.toUInt64) >>> 32).toUInt32
    period.toUInt64 - k.toUInt64 + off.toUInt64

inductive SamplerPc where
  | idle
  | /-- It has its ordinal, and reads the next point. -/ load (n : UInt64)
  | /-- Its ordinal has reached the point it read, which it tries to claim. -/
    claim (n next : UInt64)
  | /-- It has claimed a point, and counts it. -/ count
  deriving DecidableEq

def SamplerPc.ordinal? : SamplerPc → Option UInt64
  | .load n => some n
  | .claim n _ => some n
  | _ => none

def SamplerPc.underWay : SamplerPc → Bool
  | .idle => false
  | _ => true

def SamplerPc.claimed : SamplerPc → Bool
  | .count => true
  | _ => false

/-- The sampler, the threads that call it, and what the completed calls returned. -/
structure Sampler where
  period : UInt32
  seed : UInt64
  next : UInt64 := 0
  observed : UInt64 := 0
  sampled : UInt64 := 0
  threads : List SamplerPc
  returned : List Bool := []
  deriving DecidableEq

namespace Sampler

/-- An atomic operation of thread `t`. -/
inductive Action where
  | /-- `should_sample` is called, and takes its ordinal. -/ enter (t : Nat)
  | load (t : Nat)
  | /-- The compare-exchange, which may fail for no reason. -/
    compareExchange (t : Nat) (spurious : Bool)
  | count (t : Nat)
  deriving DecidableEq

/-- A sampler of a process of `n` threads. -/
def new (period : UInt32) (seed : UInt64) (n : Nat) : Sampler where
  period := if period = 0 then 1 else period
  seed := seed
  threads := List.replicate n .idle

def goto (s : Sampler) (t : Nat) (p : SamplerPc) : Sampler :=
  { s with threads := s.threads.set t p }

/-- The call of thread `t` returns. -/
def ret (s : Sampler) (t : Nat) (b : Bool) : Sampler :=
  { s.goto t .idle with returned := s.returned ++ [b] }

def test (s : Sampler) (t : Nat) (n : UInt64) : Sampler :=
  if n ≥ s.next then s.goto t (.claim n s.next) else s.ret t false

def step (s : Sampler) : Action → Option Sampler
  | .enter t =>
    match s.threads[t]? with
    | some .idle => some { s.goto t (.load s.observed) with observed := s.observed + 1 }
    | _ => none
  | .load t =>
    match s.threads[t]? with
    | some (.load n) => some (s.test t n)
    | _ => none
  | .compareExchange t spurious =>
    match s.threads[t]? with
    | some (.claim n next) =>
      if s.next = next ∧ spurious = false then
        some { s.goto t .count with next := next + gapAt next s.period s.seed }
      else some (s.test t n)
    | _ => none
  | .count t =>
    match s.threads[t]? with
    | some .count => some { s.ret t true with sampled := s.sampled + 1 }
    | _ => none

def chain (period : UInt32) (seed : UInt64) : Nat → Nat
  | 0 => 0
  | k + 1 =>
    chain period seed k + (gapAt (UInt64.ofNat (chain period seed k)) period seed).toNat

/-- The number of points of the chain below `launches`; the chain is strictly increasing, so
no later point is below it. -/
def sampledCount (period : UInt32) (seed : UInt64) (launches : Nat) : Nat :=
  Nat.count (fun k => chain period seed k < launches) launches

/-- A call other than that of `t` is under way that has reached the point `p`. -/
def HasClaimant (s : Sampler) (t : Nat) (p : Nat) : Prop :=
  ∃ t' < s.threads.length, t' ≠ t ∧ (s.threads[t']?.bind SamplerPc.ordinal?).any fun n => p ≤ n.toNat

instance (s : Sampler) (t p : Nat) : Decidable (s.HasClaimant t p) :=
  inferInstanceAs (Decidable (∃ t' < _, _))

/-- The ordinals and the points stay in the range of their type; and where a call claims a
point, the following one has not been reached yet, or another call is under way that has
reached it. -/
def LeavesClaimant (s : Sampler) : Action → Prop
  | .enter _ => s.observed.toNat + 1 < 2 ^ 64
  | .compareExchange t _ =>
    let following := s.next.toNat + (gapAt s.next s.period s.seed).toNat
    following < 2 ^ 64 ∧ (s.observed.toNat ≤ following ∨ s.HasClaimant t following)
  | _ => True

instance (s : Sampler) : DecidablePred s.LeavesClaimant := fun a => by
  unfold LeavesClaimant
  split <;> infer_instance

/-! ## The chain -/

theorem gapAt_pos (seq : UInt64) {period : UInt32} (seed : UInt64) : 0 < (gapAt seq period seed).toNat := by
  unfold gapAt
  split
  · decide
  next h =>
  dsimp only
  generalize (((mix _ >>> 32) * _) >>> 32).toUInt32 = off
  have hp : 1 < period.toNat := by
    simpa [UInt32.le_iff_toNat_le] using h
  have hlt := period.toNat_lt
  have hoff := off.toNat_lt
  rw [UInt64.toNat_add, UInt64.toNat_sub_of_le, UInt32.toNat_toUInt64, UInt32.toNat_toUInt64,
    UInt32.toNat_toUInt64, UInt32.toNat_div]
  · change 0 < (period.toNat - period.toNat / 2 + off.toNat) % 2 ^ 64
    omega
  · rw [UInt64.le_iff_toNat_le, UInt32.toNat_toUInt64, UInt32.toNat_toUInt64, UInt32.toNat_div]
    exact Nat.div_le_self _ _

variable {period : UInt32} {seed : UInt64}

theorem chain_strictMono (period : UInt32) (seed : UInt64) : StrictMono (chain period seed) :=
  strictMono_nat_of_lt_succ fun _ => Nat.lt_add_of_pos_right (gapAt_pos _ seed)

theorem sampledCount_eq {launches k : Nat} (hbelow : ∀ j < k, chain period seed j < launches)
    (habove : launches ≤ chain period seed k) : sampledCount period seed launches = k := by
  have hmono := chain_strictMono period seed
  have hiff : ∀ j, chain period seed j < launches ↔ j < k := by
    intro j
    constructor
    · intro hj
      exact hmono.lt_iff_lt.mp (hj.trans_le habove)
    · exact hbelow j
  have hk : k ≤ launches := by
    cases k with
    | zero => exact Nat.zero_le _
    | succ k => exact (StrictMono.le_apply hmono).trans_lt (hbelow k (Nat.lt_succ_self k))
  rw [sampledCount, Nat.count_eq_card_filter_range]
  simp only [hiff]
  rw [show (Finset.range launches).filter (· < k) = Finset.range k from ?_, Finset.card_range]
  ext j
  rw [Finset.mem_filter, Finset.mem_range, Finset.mem_range]
  exact ⟨And.right, fun h => ⟨h.trans_le hk, h⟩⟩

/-! ## The invariant -/

def claimed (s : Sampler) : Nat := s.returned.count true + s.threads.countP SamplerPc.claimed

/-- A call is under way that has reached the point `p`. -/
def Reached (s : Sampler) (p : Nat) : Prop :=
  ∃ pc ∈ s.threads, ∃ n, pc.ordinal? = some n ∧ p ≤ n.toNat

/-- The calls under way have taken the ordinals, the next point is the first of the chain that
has not been claimed, and if it has been reached then by a call that can still claim it. -/
structure Chained (period : UInt32) (seed : UInt64) (s : Sampler) : Prop where
  period_eq : s.period = period
  seed_eq : s.seed = seed
  calls : s.returned.length + s.threads.countP SamplerPc.underWay = s.observed.toNat
  ordinal : ∀ pc ∈ s.threads, ∀ n, pc.ordinal? = some n → n.toNat < s.observed.toNat
  claim : ∀ pc ∈ s.threads, ∀ n next, pc = .claim n next → next ≤ n
  point : s.next.toNat = chain period seed s.claimed
  below : ∀ j < s.claimed, chain period seed j < s.observed.toNat
  frontier : s.observed.toNat ≤ s.next.toNat ∨ s.Reached s.next.toNat

theorem chained_new (period : UInt32) (seed : UInt64) (n : Nat) :
    Chained (if period = 0 then 1 else period) seed (new period seed n) where
  period_eq := rfl
  seed_eq := rfl
  calls := by simp [new, countP_replicate, SamplerPc.underWay]
  ordinal := by
    intro pc hpc n hn
    rw [eq_of_mem_replicate hpc] at hn
    cases hn
  claim := by
    intro pc hpc n next hn
    rw [eq_of_mem_replicate hpc] at hn
    cases hn
  point := by simp [new, claimed, countP_replicate, SamplerPc.claimed, chain]
  below := by simp [new, claimed, countP_replicate, SamplerPc.claimed]
  frontier := .inl (Nat.le_refl _)

variable {s s' : Sampler} {t : Nat}

theorem Reached.goto {p : Nat} {pc pc' : SamplerPc} (h : s.Reached p) (ht : s.threads[t]? = some pc)
    (hpc : ∀ n, pc.ordinal? = some n → p ≤ n.toNat → pc'.ordinal? = some n) :
    (s.goto t pc').Reached p := by
  obtain ⟨q, hq, n, hn, hle⟩ := h
  rcases eq_or_mem_set ht hq pc' with rfl | hq
  · refine ⟨pc', ?_, n, hpc n hn hle, hle⟩
    obtain ⟨hlt, -⟩ := List.getElem?_eq_some_iff.mp ht
    exact mem_set hlt pc'
  · exact ⟨q, hq, n, hn, hle⟩

theorem Chained.enter (h : Chained period seed s) (ht : s.threads[t]? = some .idle)
    (hlt : s.observed.toNat + 1 < 2 ^ 64) :
    Chained period seed { s.goto t (.load s.observed) with observed := s.observed + 1 } := by
  have hob : (s.observed + 1).toNat = s.observed.toNat + 1 := by
    rw [UInt64.toNat_add, UInt64.toNat_one, Nat.mod_eq_of_lt hlt]
  have hcalls : _ + 0 = _ + 1 := countP_set_add ht SamplerPc.underWay (.load s.observed)
  have hclaims : _ + 0 = _ + 0 := countP_set_add ht SamplerPc.claimed (.load s.observed)
  have hsame : claimed { s.goto t (.load s.observed) with observed := s.observed + 1 } =
      s.claimed := congrArg (_ + ·) hclaims
  have hcount := h.calls
  refine ⟨h.period_eq, h.seed_eq, ?_, ?_, ?_, ?_, ?_, ?_⟩
  · dsimp only [goto]
    omega
  · intro pc hpc n hn
    dsimp only
    rw [hob]
    rcases mem_or_eq_of_mem_set hpc with hpc | rfl
    · exact (h.ordinal pc hpc n hn).trans (Nat.lt_succ_self _)
    · cases hn
      exact Nat.lt_succ_self _
  · intro pc hpc n next hn
    rcases mem_or_eq_of_mem_set hpc with hpc | rfl
    · exact h.claim pc hpc n next hn
    · cases hn
  · rw [hsame]
    exact h.point
  · rw [hsame]
    intro j hj
    dsimp only
    rw [hob]
    exact (h.below j hj).trans (Nat.lt_succ_self _)
  · -- the new call has reached the next point, if nobody had
    dsimp only
    rw [hob]
    rcases h.frontier with hle | hr
    · rcases hle.lt_or_eq with hlt | heq
      · exact .inl hlt
      · right
        obtain ⟨hlen, -⟩ := List.getElem?_eq_some_iff.mp ht
        exact ⟨.load s.observed, mem_set hlen _, s.observed, rfl, heq.ge⟩
    · exact .inr (hr.goto ht nofun)

theorem Chained.move (h : Chained period seed s) {pc pc' : SamplerPc} {ret : List Bool}
    {sampled : UInt64} (ht : s.threads[t]? = some pc)
    (hcalls : pc.underWay.toNat = pc'.underWay.toNat + ret.length)
    (hclaims : pc.claimed.toNat = pc'.claimed.toNat + ret.count true)
    (hord : ∀ n, pc'.ordinal? = some n → n.toNat < s.observed.toNat)
    (hclaim : ∀ n next, pc' = .claim n next → next ≤ n)
    (hkeep : ∀ n, pc.ordinal? = some n → s.next.toNat ≤ n.toNat → pc'.ordinal? = some n) :
    Chained period seed { s.goto t pc' with returned := s.returned ++ ret, sampled := sampled } := by
  have hcalls' := countP_set_add ht SamplerPc.underWay pc'
  have hclaims' := countP_set_add ht SamplerPc.claimed pc'
  have hsame : claimed { s.goto t pc' with returned := s.returned ++ ret, sampled := sampled } =
      s.claimed := by
    simp only [claimed, goto, count_append]
    omega
  have hcount := h.calls
  refine ⟨h.period_eq, h.seed_eq, ?_, ?_, ?_, ?_, ?_, ?_⟩
  · simp only [goto, List.length_append]
    omega
  · intro q hq n hn
    rcases mem_or_eq_of_mem_set hq with hq | rfl
    · exact h.ordinal q hq n hn
    · exact hord n hn
  · intro q hq n next hn
    rcases mem_or_eq_of_mem_set hq with hq | rfl
    · exact h.claim q hq n next hn
    · exact hclaim n next hn
  · rw [hsame]
    exact h.point
  · rw [hsame]
    exact h.below
  · exact h.frontier.imp_right fun hr => hr.goto ht hkeep

theorem Chained.test (h : Chained period seed s) {pc : SamplerPc} {n : UInt64}
    (ht : s.threads[t]? = some pc) (hn : pc.ordinal? = some n) :
    Chained period seed (s.test t n) := by
  have hpc : pc.underWay = true ∧ pc.claimed = false := by
    cases pc with
    | load n => exact ⟨rfl, rfl⟩
    | claim n next => exact ⟨rfl, rfl⟩
    | idle => cases hn
    | count => cases hn
  have hlt := h.ordinal pc (mem_of_getElem? ht) n hn
  unfold Sampler.test
  split
  · next hge =>
      have hmove : Chained period seed { s.goto t (.claim n s.next) with
          returned := s.returned ++ [], sampled := s.sampled } := by
        refine h.move ht (by rw [hpc.1]; rfl) (by rw [hpc.2]; rfl) ?_ ?_ ?_
        · intro m hm
          cases hm
          exact hlt
        · intro m next hm
          cases hm
          exact hge
        · intro m hm _
          rw [hn] at hm
          exact hm
      rw [append_nil] at hmove
      exact hmove
  · next hge =>
      refine h.move ht (by rw [hpc.1]; rfl) (by rw [hpc.2]; rfl) nofun nofun ?_
      intro m hm hle
      rw [hn] at hm
      cases hm
      exact absurd (UInt64.le_iff_toNat_le.mpr hle) hge

theorem Chained.advance (h : Chained period seed s) {n next : UInt64}
    (ht : s.threads[t]? = some (.claim n next)) (hnext : s.next = next)
    (hlt : s.next.toNat + (gapAt s.next s.period s.seed).toNat < 2 ^ 64)
    (hleaves : s.observed.toNat ≤ s.next.toNat + (gapAt s.next s.period s.seed).toNat ∨
      s.HasClaimant t (s.next.toNat + (gapAt s.next s.period s.seed).toNat)) :
    Chained period seed { s.goto t .count with next := next + gapAt next s.period s.seed } := by
  subst hnext
  have hnew : (s.next + gapAt s.next s.period s.seed).toNat = s.next.toNat + (gapAt s.next s.period s.seed).toNat := by
    rw [UInt64.toNat_add, Nat.mod_eq_of_lt hlt]
  have hcalls : _ + 1 = _ + 1 := countP_set_add ht SamplerPc.underWay .count
  have hclaims : _ + 0 = _ + 1 := countP_set_add ht SamplerPc.claimed .count
  have hone : claimed { s.goto t .count with next := s.next + gapAt s.next s.period s.seed } =
      s.claimed + 1 := congrArg (_ + ·) hclaims
  have hcount := h.calls
  have hmem := mem_of_getElem? ht
  refine ⟨h.period_eq, h.seed_eq, ?_, ?_, ?_, ?_, ?_, ?_⟩
  · dsimp only [goto]
    omega
  · intro q hq m hm
    rcases mem_or_eq_of_mem_set hq with hq | rfl
    · exact h.ordinal q hq m hm
    · cases hm
  · intro q hq m nx hm
    rcases mem_or_eq_of_mem_set hq with hq | rfl
    · exact h.claim q hq m nx hm
    · cases hm
  · rw [hone, chain, ← h.point, UInt64.ofNat_toNat, ← h.period_eq, ← h.seed_eq]
    exact hnew
  · rw [hone]
    intro j hj
    rcases Nat.lt_succ_iff_lt_or_eq.mp hj with hj | rfl
    · exact h.below j hj
    · -- the point claimed had been reached
      rw [← h.point]
      exact (UInt64.le_iff_toNat_le.mp (h.claim _ hmem n s.next rfl)).trans_lt (h.ordinal _ hmem n rfl)
  · dsimp only
    rw [hnew]
    refine hleaves.imp_right ?_
    rintro ⟨t', -, hne, hany⟩
    obtain ⟨m, hm, hle⟩ := (Option.any_eq_true _ _).mp hany
    obtain ⟨pc, hpc, hm⟩ := Option.bind_eq_some_iff.mp hm
    have hpc' : (s.threads.set t .count)[t']? = some pc := by
      rw [getElem?_set_ne hne.symm]
      exact hpc
    exact ⟨pc, mem_of_getElem? hpc', m, hm, of_decide_eq_true hle⟩

theorem Chained.step (h : Chained period seed s) {a : Action} (ha : s.LeavesClaimant a)
    (hs : s.step a = some s') : Chained period seed s' := by
  cases a with
  | enter t =>
    simp only [Sampler.step] at hs
    split at hs
    · next ht =>
        cases hs
        exact h.enter ht ha
    · cases hs
  | load t =>
    simp only [Sampler.step] at hs
    split at hs
    · next ht =>
        cases hs
        exact h.test ht rfl
    · cases hs
  | compareExchange t spurious =>
    simp only [Sampler.step] at hs
    split at hs
    · next ht =>
        split at hs
        · next hc =>
            cases hs
            exact h.advance ht hc.1 ha.1 ha.2
        · cases hs
          exact h.test ht rfl
    · cases hs
  | count t =>
    simp only [Sampler.step] at hs
    split at hs
    · next ht =>
        cases hs
        exact h.move ht rfl rfl nofun nofun nofun
    · cases hs

/-- The sampled count is exact.  In every run in which the ordinals and the points stay in
range and no claim leaves the following point without a claimant, whenever no call is under
way the calls that returned true are as many as the points of the chain below the number of
calls. -/
theorem sampled_exactly {period : UInt32} {seed : UInt64} {n : Nat} {as : List Action} {s : Sampler}
    (h : Run (fun s a s' => s.LeavesClaimant a ∧ s.step a = some s') (new period seed n) as s)
    (hidle : ∀ pc ∈ s.threads, pc = .idle) :
    s.returned.count true = sampledCount (if period = 0 then 1 else period) seed s.returned.length := by
  have hc : Chained (if period = 0 then 1 else period) seed s :=
    Run.invariant (I := fun _ s => Chained _ seed s) (chained_new period seed n)
      (fun _ _ _ _ _ hi ha => hi.step ha.1 ha.2) h
  have hcalls : s.returned.length = s.observed.toNat := by
    have hzero : s.threads.countP SamplerPc.underWay = 0 :=
      countP_eq_zero.mpr fun pc hpc => by rw [hidle pc hpc]; decide
    rw [← hc.calls, hzero, Nat.add_zero]
  have hclaimed : s.claimed = s.returned.count true := by
    have hzero : s.threads.countP SamplerPc.claimed = 0 :=
      countP_eq_zero.mpr fun pc hpc => by rw [hidle pc hpc]; decide
    rw [claimed, hzero, Nat.add_zero]
  -- nobody is under way, so the next point has not been reached
  have hfront : s.observed.toNat ≤ s.next.toNat := by
    refine hc.frontier.resolve_right ?_
    rintro ⟨pc, hpc, m, hm, -⟩
    rw [hidle pc hpc] at hm
    cases hm
  rw [hcalls, ← hclaimed]
  exact (sampledCount_eq hc.below (hc.point ▸ hfront)).symm

def kDefaultSeed : UInt64 := 0x9E3779B97F4A7C15

/-- Two calls that take their ordinals one after the other and claim in that order. -/
def claimInOrder : List Action :=
  [.enter 0, .enter 1, .load 0, .load 1, .compareExchange 0 false, .compareExchange 1 false,
   .count 0, .compareExchange 1 false, .count 1]

theorem sampled_exactly_in_order :
    ∃ s, Run (fun s a s' => s.LeavesClaimant a ∧ s.step a = some s') (new 1 kDefaultSeed 2) claimInOrder s ∧
      s.returned = [true, true] ∧
      s.returned.count true = sampledCount 1 kDefaultSeed s.returned.length := by
  obtain ⟨s, hr, h⟩ := exists_guarded_run step LeavesClaimant (new 1 kDefaultSeed 2) claimInOrder
    (fun s => s.threads == [.idle, .idle] && s.returned == [true, true]) (by decide +kernel)
  rw [Bool.and_eq_true, beq_iff_eq, beq_iff_eq] at h
  refine ⟨s, hr, h.2, sampled_exactly hr ?_⟩
  rw [h.1]
  decide

/-- Two calls take the ordinals 0 and 1.  The second claims point 0 before the first has read
the next point, which is 1 by then: the first does not sample, and point 1 is never claimed. -/
theorem sampled_not_exactly : ∃ s, Run (fun s a s' => s.step a = some s') (new 1 kDefaultSeed 2)
        [.enter 0, .enter 1, .load 1, .compareExchange 1 false, .count 1, .load 0] s ∧
      s.threads = [.idle, .idle] ∧ s.returned = [true, false] ∧
      sampledCount 1 kDefaultSeed s.returned.length = 2 := by
  obtain ⟨s, hr, h⟩ := @exists_run _ _ step (new 1 kDefaultSeed 2)
    [.enter 0, .enter 1, .load 1, .compareExchange 1 false, .count 1, .load 0]
    (fun s => s.threads == [.idle, .idle] && s.returned == [true, false]) (by decide +kernel)
  rw [Bool.and_eq_true, beq_iff_eq, beq_iff_eq] at h
  refine ⟨s, hr, h.1, h.2, ?_⟩
  rw [h.2]
  decide +kernel

end Sampler

end PerfAgent.Shim
