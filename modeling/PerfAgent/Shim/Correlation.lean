import PerfAgent.Lib.Machine
import Mathlib.Data.Nat.Bitwise

/-!
# The wire correlation of a launch

The vendor's correlation id is a 32-bit counter that wraps.  `correlate_launch` extends it
with an epoch, kept together with the last id in one atomic word, and
`correlate_activity` finds the epoch of an id that was issued in the past.

Any number of threads are in `correlate_launch` at once.  What they share is the word, so a
call is its first load followed by compare-exchanges, each of which either ends the call or
reads the word again; everything between two of these is local.  A compare-exchange may
fail spuriously, since the code uses the weak one.

Launches are numbered here as they are issued, `0, 1, 2, …`, and number `n` carries the id
`n % 2 ^ 32`.  The numbers are not in the program: they are what the epoch is to recover.
-/

namespace PerfAgent.Shim

open List

/-! ## The code -/

def kWrapGuard : Nat := 1 <<< 31

/-- The correlation of `id` in `epoch`; the sum is one of 32-bit integers. -/
def makeCorr (epoch id : Nat) : Nat := ((epoch + 1) % 2 ^ 32) <<< 32 ||| id

/-- What one pass through the loop of `correlate_launch` comes to. -/
inductive Pass where
  | /-- The compare-exchange to `next`, and the correlation if it succeeds. -/
    exchange (next corr : Nat)
  | /-- A small reordering: the call returns. -/
    done (corr : Nat)
  deriving DecidableEq

def correlateLaunchPass (cur id : Nat) : Pass :=
  let last := cur % 2 ^ 32
  let epoch := (cur >>> 32) % 2 ^ 32
  if last > id ∧ last - id > kWrapGuard then
    -- the counter wrapped
    let nextEpoch := (epoch + 1) % 2 ^ 32
    .exchange (nextEpoch <<< 32 ||| id) (makeCorr nextEpoch id)
  else if id > last then
    -- ordinary advance
    .exchange (epoch <<< 32 ||| id) (makeCorr epoch id)
  else .done (makeCorr epoch id)

/-- `correlate_activity`, with the word it loads. -/
def correlateActivity (cur id : Nat) : Nat :=
  let last := cur % 2 ^ 32
  let epoch := (cur >>> 32) % 2 ^ 32
  let epoch := if id > last ∧ id - last > kWrapGuard ∧ epoch > 0 then epoch - 1 else epoch
  makeCorr epoch id

/-- The local variables of a call that is about to compare and exchange. -/
structure LaunchCall where
  number : Nat
  cur : Nat
  next : Nat
  corr : Nat
  pass : correlateLaunchPass cur (number % 2 ^ 32) = .exchange next corr

/-- The shared word, the calls in flight, and what has been returned so far, newest first. -/
structure Correlator where
  gCorr : Nat := 0
  call : Nat → Option LaunchCall := fun _ => none
  launched : List (Nat × Nat) := []
  activities : List (Nat × Nat) := []

namespace Correlator

inductive Action where
  | /-- Thread `t` enters `correlate_launch` for launch `n` and loads the word. -/
    load (t n : Nat)
  | /-- Thread `t` compares and exchanges. -/
    compareExchange (t : Nat) (spurious : Bool)
  | /-- `correlate_activity` for launch `n`; its only shared access is one load. -/
    activity (n : Nat)
  deriving DecidableEq

/-- Launch `n` has got its correlation. -/
def finish (s : Correlator) (t n corr : Nat) : Correlator :=
  { s with call := Function.update s.call t none, launched := (n, corr) :: s.launched }

/-- Thread `t`, correlating `n`, has read the word, and goes through the loop up to its next
atomic access. -/
def proceed (s : Correlator) (t n : Nat) : Correlator :=
  match h : correlateLaunchPass s.gCorr (n % 2 ^ 32) with
  | .exchange next corr =>
    { s with call := Function.update s.call t (some ⟨n, s.gCorr, next, corr, h⟩) }
  | .done corr => s.finish t n corr

def step (s : Correlator) : Action → Option Correlator
  | .load t n =>
    match s.call t with
    | none => some (s.proceed t n)
    | some _ => none
  | .compareExchange t spurious =>
    match s.call t with
    | none => none
    | some c =>
      if !spurious && s.gCorr == c.cur then
        some { s.finish t c.number c.corr with gCorr := c.next }
      else some (s.proceed t c.number)
  | .activity n =>
    some { s with activities := (n, correlateActivity s.gCorr (n % 2 ^ 32)) :: s.activities }

/-! ## What a run is promised

A call takes effect at its last access of the word: at the compare-exchange that succeeds,
or at the read that finds a small reordering. -/

def decides (s : Correlator) : Action → Option Nat
  | .load _ n =>
    match correlateLaunchPass s.gCorr (n % 2 ^ 32) with
    | .exchange _ _ => none
    | .done _ => some n
  | .compareExchange t spurious =>
    match s.call t with
    | none => none
    | some c =>
      if !spurious && s.gCorr == c.cur then some c.number
      else match correlateLaunchPass s.gCorr (c.number % 2 ^ 32) with
        | .exchange _ _ => none
        | .done _ => some c.number
  | .activity _ => none

def newest (s : Correlator) : Option Nat := (s.launched.map Prod.fst).max?

def first (s : Correlator) : Option Nat := (s.launched.map Prod.fst).getLast?

/-- Launches are correlated close to the newest one, and an activity belongs to a launch
that was correlated and is not far behind. -/
def Orderly (s : Correlator) (a : Action) : Prop :=
  (∀ n ∈ s.decides a, ∀ N ∈ s.newest, n ≤ N + (2 ^ 31 - 1) ∧ N ≤ n + (2 ^ 31 - 1)) ∧
  match a with
  | .activity n => n ∈ s.launched.map Prod.fst ∧ ∀ N ∈ s.newest, N < n + 2 ^ 31
  | _ => True

/-- No launch from before a wrap of the counter is correlated after one from behind it, and
the epoch has not used up its 32 bits. -/
def NoStraggler (s : Correlator) (a : Action) : Prop :=
  ∀ n ∈ s.decides a, (∀ N ∈ s.newest, N / 2 ^ 32 ≤ n / 2 ^ 32) ∧ ∀ f ∈ s.first, n / 2 ^ 32 + 1 < f / 2 ^ 32 + 2 ^ 32

/-- The correlation is an exact join key: it is not zero, it tells launches apart, and an
activity gets the one of its launch. -/
structure ExactKeys (s : Correlator) : Prop where
  launch_ne_zero : ∀ {n c}, (n, c) ∈ s.launched → c ≠ 0
  activity_ne_zero : ∀ {n c}, (n, c) ∈ s.activities → c ≠ 0
  launch_inj : ∀ {n n' c}, (n, c) ∈ s.launched → (n', c) ∈ s.launched → n = n'
  activity_eq : ∀ {n c}, (n, c) ∈ s.activities → (n, c) ∈ s.launched ∧ ∀ c', (n, c') ∈ s.launched → c' = c

end Correlator

/-! ## The epoch recovers the block

While the word is the newest launch number `N`, counted from the block `b` of the first one,
a pass for launch `n` gives the number `n` itself, counted from one block earlier. -/

theorem shiftLeft_or_eq {hi lo : Nat} (h : lo < 2 ^ 32) : hi <<< 32 ||| lo = hi * 2 ^ 32 + lo := by
  rw [← Nat.shiftLeft_add_eq_or_of_lt h, Nat.shiftLeft_eq]

theorem makeCorr_eq {epoch id : Nat} (he : epoch + 1 < 2 ^ 32) (hid : id < 2 ^ 32) :
    makeCorr epoch id = (epoch + 1) * 2 ^ 32 + id := by
  rw [makeCorr, Nat.mod_eq_of_lt he, shiftLeft_or_eq hid]

theorem epoch_mul_add {b n e : Nat} (he : e + b = n / 2 ^ 32) : e * 2 ^ 32 + n % 2 ^ 32 = n - b * 2 ^ 32 := by
  omega

theorem epoch_mul_word {b N w : Nat} (hw : w + b * 2 ^ 32 = N)
    (hN : N / 2 ^ 32 + 1 < b + 2 ^ 32) : (w >>> 32) % 2 ^ 32 = N / 2 ^ 32 - b := by
  rw [Nat.shiftRight_eq_div_pow]
  omega

theorem makeCorr_number {b n e : Nat} (he : e + b = n / 2 ^ 32) (hn : n / 2 ^ 32 + 1 < b + 2 ^ 32) :
    makeCorr e (n % 2 ^ 32) = n + 2 ^ 32 - b * 2 ^ 32 := by
  rw [makeCorr_eq (by omega) (Nat.mod_lt _ (Nat.two_pow_pos 32)), Nat.add_mul, Nat.one_mul,
    Nat.add_right_comm, epoch_mul_add he]
  omega

theorem correlateLaunchPass_eq {b N n w : Nat} (hw : w + b * 2 ^ 32 = N)
    (hblock : N / 2 ^ 32 ≤ n / 2 ^ 32) (hback : N ≤ n + 2 ^ 31)
    (hahead : N / 2 ^ 32 < n / 2 ^ 32 → n < N + 2 ^ 31) (hn : n / 2 ^ 32 + 1 < b + 2 ^ 32) :
    correlateLaunchPass w (n % 2 ^ 32) =
      if N < n then .exchange (n - b * 2 ^ 32) (n + 2 ^ 32 - b * 2 ^ 32)
      else .done (n + 2 ^ 32 - b * 2 ^ 32) := by
  have hid : n % 2 ^ 32 < 2 ^ 32 := Nat.mod_lt _ (Nat.two_pow_pos 32)
  have hepoch := epoch_mul_word hw (by omega)
  have hguard : kWrapGuard = 2 ^ 31 := rfl
  simp only [correlateLaunchPass, hepoch, hguard]
  obtain hlt | heq := Nat.lt_or_eq_of_le hblock
  · -- the newest launch is at the end of its block, and `n` at the beginning of the next
    have hnear := hahead hlt
    have he : N / 2 ^ 32 - b + 1 + b = n / 2 ^ 32 := by omega
    rw [if_pos (by omega), if_pos (by omega), Nat.mod_eq_of_lt (by omega),
      shiftLeft_or_eq hid, makeCorr_number he hn, epoch_mul_add he]
  · have he : N / 2 ^ 32 - b + b = n / 2 ^ 32 := by omega
    rw [if_neg (by omega), makeCorr_number he hn, shiftLeft_or_eq hid, epoch_mul_add he]
    by_cases hgt : N < n
    · rw [if_pos (by omega), if_pos hgt]
    · rw [if_neg (by omega), if_neg hgt]

theorem correlateActivity_eq {b N n w : Nat} (hw : w + b * 2 ^ 32 = N) (hb : b * 2 ^ 32 ≤ n)
    (hle : n ≤ N) (hnear : N < n + 2 ^ 31) (hN : N / 2 ^ 32 + 1 < b + 2 ^ 32) :
    correlateActivity w (n % 2 ^ 32) = n + 2 ^ 32 - b * 2 ^ 32 := by
  have hepoch := epoch_mul_word hw hN
  have hguard : kWrapGuard = 2 ^ 31 := rfl
  simp only [correlateActivity, hepoch, hguard]
  by_cases hwrap : n / 2 ^ 32 < N / 2 ^ 32
  · -- the record is left over from before the wrap
    have he : N / 2 ^ 32 - b - 1 + b = n / 2 ^ 32 := by omega
    rw [if_pos (by omega), makeCorr_number he (by omega)]
  · have he : N / 2 ^ 32 - b + b = n / 2 ^ 32 := by omega
    rw [if_neg (by omega), makeCorr_number he (by omega)]

namespace Correlator

variable {s s' : Correlator} {a : Action}

/-! ## One step -/

/-- The word and the correlation after a call for `id` that takes effect on `w`. -/
def takeEffect (w id : Nat) : Nat × Nat :=
  match correlateLaunchPass w id with
  | .exchange next corr => (next, corr)
  | .done corr => (w, corr)

theorem takeEffect_done {w id corr : Nat} (h : correlateLaunchPass w id = .done corr) :
    takeEffect w id = (w, corr) := by
  rw [takeEffect, h]

inductive Effect (s : Correlator) (a : Action) (s' : Correlator) : Prop
  | /-- A launch gets its correlation. -/
    launch (n : Nat) (hn : s.decides a = some n) (hword : s'.gCorr = (takeEffect s.gCorr (n % 2 ^ 32)).1)
      (hlaunched : s'.launched = (n, (takeEffect s.gCorr (n % 2 ^ 32)).2) :: s.launched)
      (hactivities : s'.activities = s.activities)
  | /-- A call has read the word, or has to read it again. -/
    silent (hword : s'.gCorr = s.gCorr) (hlaunched : s'.launched = s.launched)
      (hactivities : s'.activities = s.activities)
  | /-- An activity gets one. -/
    activity (n : Nat) (ha : a = .activity n) (hword : s'.gCorr = s.gCorr) (hlaunched : s'.launched = s.launched)
      (hactivities : s'.activities = (n, correlateActivity s.gCorr (n % 2 ^ 32)) :: s.activities)

theorem proceed_cases (s : Correlator) (t n : Nat) :
    ((∃ next corr, correlateLaunchPass s.gCorr (n % 2 ^ 32) = .exchange next corr) ∧
        (s.proceed t n).gCorr = s.gCorr ∧ (s.proceed t n).launched = s.launched ∧
        (s.proceed t n).activities = s.activities) ∨
      ∃ corr, correlateLaunchPass s.gCorr (n % 2 ^ 32) = .done corr ∧ s.proceed t n = s.finish t n corr := by
  unfold proceed
  split
  next next corr h => exact .inl ⟨⟨next, corr, h⟩, rfl, rfl, rfl⟩
  next corr h => exact .inr ⟨corr, h, rfl⟩

theorem effect_of_step (h : s.step a = some s') : Effect s a s' := by
  cases a with
  | load t n =>
    simp only [step] at h
    split at h
    next =>
      obtain rfl := Option.some.inj h
      obtain ⟨-, hword, hlaunched, hactivities⟩ | ⟨corr, hpass, heq⟩ := proceed_cases s t n
      · exact .silent hword hlaunched hactivities
      · rw [heq]
        refine .launch n ?_ ?_ ?_ rfl
        · simp only [decides, hpass]
        · rw [takeEffect_done hpass]
          rfl
        · rw [takeEffect_done hpass]
          rfl
    next => cases h
  | compareExchange t spurious =>
    simp only [step] at h
    split at h
    next => cases h
    next c hc =>
      split at h
      next hok =>
        obtain rfl := Option.some.inj h
        have hcur : s.gCorr = c.cur := by simp_all
        have hpass : takeEffect s.gCorr (c.number % 2 ^ 32) = (c.next, c.corr) := by
          rw [takeEffect, hcur, c.pass]
        exact .launch c.number (by simp only [decides, hc, hok, if_true]) (by rw [hpass]) (by rw [hpass]; rfl) rfl
      next hfail =>
        obtain rfl := Option.some.inj h
        obtain ⟨-, hword, hlaunched, hactivities⟩ | ⟨corr, hpass, heq⟩ :=
          proceed_cases s t c.number
        · exact .silent hword hlaunched hactivities
        · rw [heq]
          refine .launch c.number ?_ ?_ ?_ rfl
          · simp only [decides, hc, hpass]
            rw [if_neg hfail]
          · rw [takeEffect_done hpass]
            rfl
          · rw [takeEffect_done hpass]
            rfl
  | activity n =>
    obtain rfl := Option.some.inj h
    exact .activity n rfl rfl rfl rfl

/-! ## Every run -/

/-- The word is the newest launch number, counted from block `b`, and every correlation
handed out is the launch number counted from one block earlier. -/
structure Tracks (b N : Nat) (s : Correlator) : Prop where
  first : s.first.map (· / 2 ^ 32) = some b
  newest : s.newest = some N
  word : s.gCorr + b * 2 ^ 32 = N
  bound : N / 2 ^ 32 + 1 < b + 2 ^ 32
  launched : ∀ {n c}, (n, c) ∈ s.launched → b * 2 ^ 32 ≤ n ∧ n ≤ N ∧ c = n + 2 ^ 32 - b * 2 ^ 32
  activities : ∀ {n c}, (n, c) ∈ s.activities → n ∈ s.launched.map Prod.fst ∧ c = n + 2 ^ 32 - b * 2 ^ 32

/-- Nothing is correlated yet, or the word tracks the newest launch. -/
def Sound (s : Correlator) : Prop :=
  (s.launched = [] ∧ s.activities = [] ∧ s.gCorr = 0) ∨ ∃ b N, Tracks b N s

theorem newest_cons {n c : Nat} (h : s'.launched = (n, c) :: s.launched) :
    s'.newest = some (s.newest.elim n (max n)) := by
  simp [newest, h, max?_cons]

theorem first_cons {n c f : Nat} (h : s'.launched = (n, c) :: s.launched) (hf : f ∈ s.first) : s'.first = some f := by
  simp only [first, h, map_cons] at hf ⊢
  rw [getLast?_cons, hf]
  rfl

theorem takeEffect_eq {b N n w : Nat} (hw : w + b * 2 ^ 32 = N)
    (hblock : N / 2 ^ 32 ≤ n / 2 ^ 32) (hback : N ≤ n + 2 ^ 31)
    (hahead : N / 2 ^ 32 < n / 2 ^ 32 → n < N + 2 ^ 31) (hn : n / 2 ^ 32 + 1 < b + 2 ^ 32) :
    takeEffect w (n % 2 ^ 32) = (max n N - b * 2 ^ 32, n + 2 ^ 32 - b * 2 ^ 32) := by
  rw [takeEffect, correlateLaunchPass_eq hw hblock hback hahead hn]
  by_cases hgt : N < n
  · rw [if_pos hgt, max_eq_left hgt.le]
  · rw [if_neg hgt, max_eq_right (Nat.not_lt.mp hgt), ← hw, Nat.add_sub_cancel]

theorem tracks_first {n : Nat} (hempty : s.launched = [] ∧ s.activities = [] ∧ s.gCorr = 0)
    (hword : s'.gCorr = (takeEffect s.gCorr (n % 2 ^ 32)).1)
    (hlaunched : s'.launched = (n, (takeEffect s.gCorr (n % 2 ^ 32)).2) :: s.launched)
    (hactivities : s'.activities = s.activities) : Tracks (n / 2 ^ 32) n s' := by
  obtain ⟨hl, hact, hzero⟩ := hempty
  -- the word reads as if the first launch of the block had been correlated
  have heffect := @takeEffect_eq (n / 2 ^ 32) (n / 2 ^ 32 * 2 ^ 32) n 0 (by omega) (by omega)
    (by omega) (by omega) (by omega)
  rw [hzero, heffect] at hword hlaunched
  rw [hl] at hlaunched
  refine ⟨?_, ?_, ?_, by omega, ?_, ?_⟩
  · simp [first, hlaunched]
  · simp [newest, hlaunched]
  · rw [hword]
    dsimp only
    omega
  · intro m c hm
    rw [hlaunched, mem_singleton] at hm
    cases hm
    exact ⟨by omega, le_rfl, rfl⟩
  · intro m c hm
    rw [hactivities, hact] at hm
    cases hm

theorem Tracks.launch {b N n : Nat} (h : Tracks b N s) (hn : s.decides a = some n)
    (ho : s.Orderly a) (hs : s.NoStraggler a)
    (hword : s'.gCorr = (takeEffect s.gCorr (n % 2 ^ 32)).1)
    (hlaunched : s'.launched = (n, (takeEffect s.gCorr (n % 2 ^ 32)).2) :: s.launched)
    (hactivities : s'.activities = s.activities) : Tracks b (max n N) s' := by
  obtain ⟨f, hf, rfl⟩ := Option.map_eq_some_iff.mp h.first
  obtain ⟨hahead, hback⟩ := ho.1 n hn N h.newest
  obtain ⟨hblock, hbound⟩ := hs n hn
  have hblock := hblock N h.newest
  have hbound := hbound f hf
  have hw := h.word
  have hN := h.bound
  rw [takeEffect_eq hw hblock (by omega) (by omega) hbound] at hword hlaunched
  refine ⟨?_, ?_, ?_, by omega, ?_, ?_⟩
  · rw [first_cons hlaunched hf]
    rfl
  · rw [newest_cons hlaunched, h.newest]
    rfl
  · rw [hword]
    dsimp only
    omega
  · intro m c hm
    rw [hlaunched] at hm
    obtain hm | hm := mem_cons.mp hm
    · cases hm
      exact ⟨by omega, le_max_left _ _, rfl⟩
    · obtain ⟨hlow, hle, hc⟩ := h.launched hm
      exact ⟨hlow, hle.trans (le_max_right _ _), hc⟩
  · intro m c hm
    rw [hactivities] at hm
    obtain ⟨hmem, hc⟩ := h.activities hm
    rw [hlaunched]
    exact ⟨mem_cons_of_mem _ hmem, hc⟩

theorem Tracks.activity {b N n : Nat} (h : Tracks b N s) (ho : s.Orderly (.activity n))
    (hword : s'.gCorr = s.gCorr) (hlaunched : s'.launched = s.launched)
    (hactivities : s'.activities = (n, correlateActivity s.gCorr (n % 2 ^ 32)) :: s.activities) :
    Tracks b N s' := by
  obtain ⟨hmem, hnear⟩ := ho.2
  obtain ⟨⟨m, c⟩, hl, rfl⟩ := mem_map.mp hmem
  obtain ⟨hlow, hle, hc⟩ := h.launched hl
  have heq := correlateActivity_eq h.word hlow hle (hnear N h.newest) h.bound
  refine ⟨?_, ?_, hword ▸ h.word, h.bound, ?_, ?_⟩
  · rw [Correlator.first, hlaunched]
    exact h.first
  · rw [Correlator.newest, hlaunched]
    exact h.newest
  · intro m c hm
    exact h.launched (hlaunched ▸ hm)
  · intro m' c' hm'
    rw [hactivities] at hm'
    rw [hlaunched]
    obtain hm' | hm' := mem_cons.mp hm'
    · cases hm'
      exact ⟨hmem, heq⟩
    · exact h.activities hm'

theorem sound_step (hsound : Sound s) (h : s.step a = some s') (ho : s.Orderly a)
    (hs : s.NoStraggler a) : Sound s' := by
  cases effect_of_step h with
  | launch n hn hword hlaunched hactivities =>
    obtain hempty | ⟨b, N, htracks⟩ := hsound
    · exact .inr ⟨_, _, tracks_first hempty hword hlaunched hactivities⟩
    · exact .inr ⟨_, _, htracks.launch hn ho hs hword hlaunched hactivities⟩
  | silent hword hlaunched hactivities =>
    have hkeep : ∀ b N, Tracks b N s → Tracks b N s' := by
      intro b N ⟨h₁, h₂, h₃, h₄, h₅, h₆⟩
      refine ⟨?_, ?_, ?_, h₄, ?_, ?_⟩ <;>
        simpa only [first, newest, hword, hlaunched, hactivities]
    obtain ⟨hl, hact, hzero⟩ | ⟨b, N, htracks⟩ := hsound
    · exact .inl ⟨hlaunched.trans hl, hactivities.trans hact, hword.trans hzero⟩
    · exact .inr ⟨b, N, hkeep b N htracks⟩
  | activity n ha hword hlaunched hactivities =>
    subst ha
    obtain ⟨hl, -, -⟩ | ⟨b, N, htracks⟩ := hsound
    · have hmem := ho.2.1
      rw [hl] at hmem
      cases hmem
    · exact .inr ⟨b, N, htracks.activity ho hword hlaunched hactivities⟩

theorem Sound.exactKeys (h : Sound s) : ExactKeys s := by
  obtain ⟨hl, hact, -⟩ | ⟨b, N, h⟩ := h
  · constructor <;> simp [hl, hact]
  · constructor
    · intro n c hn
      obtain ⟨hlow, -, hc⟩ := h.launched hn
      omega
    · intro n c hn
      obtain ⟨hmem, hc⟩ := h.activities hn
      obtain ⟨⟨m, c'⟩, hl, rfl⟩ := mem_map.mp hmem
      obtain ⟨hlow, -, -⟩ := h.launched hl
      dsimp only at hc
      omega
    · intro n n' c hn hn'
      obtain ⟨hlow, -, hc⟩ := h.launched hn
      obtain ⟨hlow', -, hc'⟩ := h.launched hn'
      omega
    · intro n c hn
      obtain ⟨hmem, hc⟩ := h.activities hn
      obtain ⟨⟨m, c'⟩, hl, rfl⟩ := mem_map.mp hmem
      have heq : c' = c := ((h.launched hl).2.2).trans hc.symm
      refine ⟨heq ▸ hl, ?_⟩
      intro c'' hl''
      exact ((h.launched hl'').2.2).trans hc.symm

/-- In every run that correlates no straggler from before a wrap, whatever the interleaving
of the threads, the correlation is an exact join key. -/
theorem correlation_exact {as : List Action} {s : Correlator}
    (h : Run (fun s a s' => (s.Orderly a ∧ s.NoStraggler a) ∧ s.step a = some s') {} as s) :
    ExactKeys s := by
  have hsound : Sound s := by
    refine Run.invariant (I := fun _ s => Sound s) (.inl ⟨rfl, rfl, rfl⟩) ?_ h
    rintro as s a s' - hsound ⟨⟨ho, hs⟩, hstep⟩
    exact sound_step hsound hstep ho hs
  exact hsound.exactKeys

/-! ## Around the wrap -/

instance (s : Correlator) : DecidablePred s.Orderly := fun a =>
  match a with
  | .load _ _ => inferInstanceAs (Decidable (_ ∧ True))
  | .compareExchange _ _ => inferInstanceAs (Decidable (_ ∧ True))
  | .activity n => inferInstanceAs (Decidable (_ ∧ n ∈ s.launched.map Prod.fst ∧ _))

instance (s : Correlator) : DecidablePred s.NoStraggler := fun _ =>
  inferInstanceAs (Decidable (∀ _ ∈ _, _ ∧ _))

/-- Thread `t` goes through `correlate_launch` for launch `n` with nothing in between. -/
def alone (t n : Nat) : List Action := [.load t n, .compareExchange t false]

/-- Two threads race for the first launch behind a wrap, and their launches come out of
order; the activities before and after the wrap get the correlations of their launches. -/
theorem correlation_exact_around_wrap :
    ∃ as s, Run (fun s a s' => (s.Orderly a ∧ s.NoStraggler a) ∧ s.step a = some s') {} as s ∧
      s.launched.map Prod.fst = [2 ^ 32 + 3, 2 ^ 32 + 5, 2 ^ 32 - 2] ∧
      s.activities.map Prod.fst = [2 ^ 32 + 5, 2 ^ 32 - 2] ∧ ExactKeys s := by
  obtain ⟨s, hrun, hp⟩ := exists_guarded_run step (fun s a => s.Orderly a ∧ s.NoStraggler a) {} (alone 0 (2 ^ 32 - 2) ++
      [.load 1 (2 ^ 32 + 3), .load 2 (2 ^ 32 + 5), .compareExchange 2 true,
        .compareExchange 2 false, .compareExchange 1 false,
        .activity (2 ^ 32 - 2), .activity (2 ^ 32 + 5)])
    (fun s => s.launched.map Prod.fst = [2 ^ 32 + 3, 2 ^ 32 + 5, 2 ^ 32 - 2] ∧
      s.activities.map Prod.fst = [2 ^ 32 + 5, 2 ^ 32 - 2]) (by decide +kernel)
  obtain ⟨hl, ha⟩ := of_decide_eq_true hp
  exact ⟨_, s, hrun, hl, ha, correlation_exact hrun⟩

/-- A launch that was issued just before a wrap and is correlated just after it moves the
last id back to the end of the block, so the next launch is taken for another wrap, and the
activity of a launch from in between gets an epoch that its launch did not. -/
theorem correlation_not_exact : ∃ as s, Run (fun s a s' => s.Orderly a ∧ s.step a = some s') {} as s ∧
      (s.launched.map Prod.fst).Nodup ∧ ¬ExactKeys s := by
  obtain ⟨s, hrun, hp⟩ := exists_guarded_run step Orderly {}
    (alone 0 (2 ^ 31 - 1) ++ alone 0 (2 ^ 32 - 2) ++ alone 0 (2 ^ 32 + 5) ++
      alone 1 (2 ^ 32 - 3) ++ alone 0 (2 ^ 32 + 6) ++ [.activity (2 ^ 32 + 5)])
    (fun s => (s.launched.map Prod.fst).Nodup ∧
      (2 ^ 32 + 5, 2 * 2 ^ 32 + 5) ∈ s.launched ∧ (2 ^ 32 + 5, 3 * 2 ^ 32 + 5) ∈ s.activities)
    (by decide +kernel)
  obtain ⟨hnodup, hl, ha⟩ := of_decide_eq_true hp
  refine ⟨_, s, hrun, hnodup, ?_⟩
  intro hexact
  have heq := (hexact.activity_eq ha).2 _ hl
  omega

end Correlator
end PerfAgent.Shim
