import PerfAgent.Lib.AssocMap
import PerfAgent.Lib.Machine
import PerfAgent.Lib.RateLimit

/-!
# Admission of enrolments

The listener of `gpuprobe/enroll.go` admits a producer for a token of the peer's bucket and one
of its own.  Token amounts are exact.  The table of peers is bounded: buckets that are full are
dropped where it has no room, and where that frees none the listener's bucket alone decides.

What a bucket holds is its level at a time (`EnrollAdmission.level`), and a bucket that is full
has the level of one that is not there.  So the table is invisible as long as it has room.
-/

namespace PerfAgent.Gpuprobe

/-! ## The source -/

/-- The longest `time.Duration`, in nanoseconds. -/
def maxDuration : Int := 2 ^ 63 - 1

/-- `time.Time.Sub`, which saturates. -/
def timeSub (t u : Int) : Int := max (-2 ^ 63) (min maxDuration (t - u))

/-- `time.Duration.Seconds`, and the time of a clock in seconds. -/
def seconds (d : Int) : ℚ := d / 1000000000

def refillTokens (tokens : ℚ) (since now : Int) (perSec max : ℚ) : ℚ :=
  let tokens := if 0 < timeSub now since then tokens + seconds (timeSub now since) * perSec else tokens
  if max < tokens then max else tokens

/-- The rates and the bursts that an admission is made with; the longest wait fills a bucket. -/
structure EnrollLimits where
  listener : RateLimit ℚ
  peer : RateLimit ℚ
  listener_full : listener.burst ≤ seconds maxDuration * listener.rate
  peer_full : peer.burst ≤ seconds maxDuration * peer.rate

def enrollUIDTrackMax : Nat := 64

structure EnrollBucket where
  tokens : ℚ
  atNs : Int
  deriving DecidableEq

structure EnrollAdmission where
  total : ℚ
  totalAt : Int
  perUID : AssocMap UInt32 EnrollBucket := ∅

namespace EnrollAdmission

variable (limits : EnrollLimits)

def new (now : Int) : EnrollAdmission where
  total := limits.listener.burst
  totalAt := now

def idle (now : Int) (b : EnrollBucket) : Bool :=
  limits.peer.burst ≤ refillTokens b.tokens b.atNs now limits.peer.rate limits.peer.burst

def sweepIdle (now : Int) (perUID : AssocMap UInt32 EnrollBucket) : AssocMap UInt32 EnrollBucket :=
  perUID.keep fun _ b => !idle limits now b

/-- The table once `admit` has made room in it: a new uid that finds it full, as `full` has it,
sweeps it first. -/
def reclaimed (full : Nat → Bool) (a : EnrollAdmission) (uid : UInt32) (now : Int) : AssocMap UInt32 EnrollBucket :=
  if (a.perUID.find? uid).isNone && full a.perUID.size then sweepIdle limits now a.perUID else a.perUID

def admitWith (full : Nat → Bool) (a : EnrollAdmission) (uid : UInt32) (now : Int) : Bool × EnrollAdmission :=
  let total := refillTokens a.total a.totalAt now limits.listener.rate limits.listener.burst
  let perUID := reclaimed limits full a uid now
  if (a.perUID.find? uid).isNone && full perUID.size then
    -- every tracked uid is spending: the listener's bucket alone
    if total < 1 then (false, ⟨total, now, perUID⟩) else (true, ⟨total - 1, now, perUID⟩)
  else
    let b := (perUID.find? uid).getD ⟨limits.peer.burst, now⟩
    let tokens := refillTokens b.tokens b.atNs now limits.peer.rate limits.peer.burst
    if total < 1 ∨ tokens < 1 then (false, ⟨total, now, perUID.put uid ⟨tokens, now⟩⟩)
    else (true, ⟨total - 1, now, perUID.put uid ⟨tokens - 1, now⟩⟩)

def admitUid (a : EnrollAdmission) (uid : UInt32) (now : Int) : Bool × EnrollAdmission :=
  admitWith limits (enrollUIDTrackMax ≤ ·) a uid now

def tracks (a : EnrollAdmission) (uid : UInt32) : Bool := (a.perUID.find? uid).isSome

/-! ## Levels -/

/-- What a peer has at a time; a peer without a bucket has a full one. -/
def level (a : EnrollAdmission) (uid : UInt32) (now : Int) : ℚ :=
  ((a.perUID.find? uid).map fun b => limits.peer.fill b.tokens (seconds now - seconds b.atNs)).getD limits.peer.burst

def listenerLevel (a : EnrollAdmission) (now : Int) : ℚ :=
  limits.listener.fill a.total (seconds now - seconds a.totalAt)

/-- The levels are within the bursts, and were brought up to date in the past. -/
structure Valid (a : EnrollAdmission) : Prop where
  total : 0 ≤ a.total ∧ a.total ≤ limits.listener.burst
  bucket : ∀ uid b, a.perUID.find? uid = some b → (0 ≤ b.tokens ∧ b.tokens ≤ limits.peer.burst) ∧ b.atNs ≤ a.totalAt

end EnrollAdmission

theorem seconds_mono {t u : Int} (h : t ≤ u) : seconds t ≤ seconds u := by
  have hcast : (t : ℚ) ≤ u := Int.cast_le.mpr h
  exact div_le_div_of_nonneg_right hcast (by norm_num)

variable {now : Int} (uid : UInt32)

theorem refillTokens_eq {r : RateLimit ℚ} (hfull : r.burst ≤ seconds maxDuration * r.rate) {tokens : ℚ} {since : Int}
    (h₀ : 0 ≤ tokens) (hnow : since ≤ now) :
    refillTokens tokens since now r.rate r.burst = r.fill tokens (seconds now - seconds since) := by
  have hsub : seconds now - seconds since = seconds (now - since) := by
    unfold seconds
    push_cast
    ring
  have hlow : timeSub now since = min maxDuration (now - since) :=
    max_eq_right (le_min (by decide) ((by decide : (-2 ^ 63 : Int) ≤ 0).trans (sub_nonneg.mpr hnow)))
  have hadd : (if 0 < timeSub now since then tokens + seconds (timeSub now since) * r.rate else tokens) =
      tokens + seconds (min maxDuration (now - since)) * r.rate := by
    rw [hlow]
    split
    · rfl
    · next hno =>
      have hzero : min maxDuration (now - since) = 0 :=
        le_antisymm (not_lt.mp hno) (le_min (by decide) (sub_nonneg.mpr hnow))
      rw [hzero]
      simp [seconds]
  have hcap : ∀ x : ℚ, (if r.burst < x then r.burst else x) = min r.burst x := fun x => by
    split
    · next hlt => exact (min_eq_left hlt.le).symm
    · next hle => exact (min_eq_right (not_lt.mp hle)).symm
  unfold refillTokens RateLimit.fill
  rw [hadd, hsub]
  refine (hcap _).trans ?_
  by_cases hlong : now - since ≤ maxDuration
  · rw [min_eq_right hlong]
  · -- the difference saturates, and fills the bucket as the whole time does
    have hmore := mul_le_mul_of_nonneg_right (seconds_mono (not_le.mp hlong).le) r.rate_nonneg
    rw [min_eq_left (not_le.mp hlong).le, min_eq_left (by linarith), min_eq_left (by linarith)]

namespace EnrollAdmission

variable {limits : EnrollLimits} {a : EnrollAdmission}

theorem valid_new (start : Int) : (new limits start).Valid limits where
  total := ⟨limits.listener.burst_nonneg, le_rfl⟩
  bucket := nofun

theorem level_later (a : EnrollAdmission) {now t : Int} (ht : now ≤ t) (uid : UInt32) :
    a.level limits uid t = limits.peer.fill (a.level limits uid now) (seconds t - seconds now) := by
  have hlater := sub_nonneg.mpr (seconds_mono ht)
  unfold level
  cases hfind : a.perUID.find? uid with
  | none => exact (RateLimit.fill_burst hlater).symm
  | some b =>
    rw [Option.map_some, Option.map_some, Option.getD_some, Option.getD_some, RateLimit.fill_fill _ _ hlater]
    ring_nf

theorem level_reclaimed (h : a.Valid limits) (hnow : a.totalAt ≤ now) (full : Nat → Bool) (uid : UInt32) (total : ℚ)
    (totalAt : Int) (u : UInt32) :
    level limits ⟨total, totalAt, reclaimed limits full a uid now⟩ u now = a.level limits u now := by
  unfold level reclaimed
  split
  · dsimp only
    rw [sweepIdle, AssocMap.find?_keep]
    cases hfind : a.perUID.find? u with
    | none => rfl
    | some b =>
      obtain ⟨⟨h₀, -⟩, hat⟩ := h.bucket u b hfind
      rw [Option.filter_some]
      cases hidle : idle limits now b with
      | false => rfl
      | true =>
        have hfull := of_decide_eq_true hidle
        rw [refillTokens_eq limits.peer_full h₀ (hat.trans hnow)] at hfull
        exact le_antisymm hfull (RateLimit.fill_le _ _ _)
  · rfl

theorem find?_of_reclaimed {full : Nat → Bool} {uid u : UInt32} {b : EnrollBucket}
    (h : (reclaimed limits full a uid now).find? u = some b) : a.perUID.find? u = some b := by
  unfold reclaimed at h
  split at h
  · rw [sweepIdle, AssocMap.find?_keep] at h
    exact (Option.filter_eq_some_iff.mp h).1
  · exact h

theorem level_put (total : ℚ) (now : Int) (m : AssocMap UInt32 EnrollBucket) (uid : UInt32) {x : ℚ}
    (hx : x ≤ limits.peer.burst) (u : UInt32) :
    level limits ⟨total, now, m.put uid ⟨x, now⟩⟩ u now =
      if u = uid then x else level limits ⟨total, now, m⟩ u now := by
  unfold level
  dsimp only
  rw [AssocMap.find?_put]
  split
  · rw [Option.map_some, Option.getD_some, sub_self, RateLimit.fill_zero hx]
  · rfl

theorem level_range (h : a.Valid limits) (hnow : a.totalAt ≤ now) (uid : UInt32) :
    0 ≤ a.level limits uid now ∧ a.level limits uid now ≤ limits.peer.burst := by
  unfold level
  cases hfind : a.perUID.find? uid with
  | none => exact ⟨limits.peer.burst_nonneg, le_rfl⟩
  | some b =>
    obtain ⟨⟨h₀, -⟩, hat⟩ := h.bucket uid b hfind
    exact ⟨RateLimit.fill_nonneg h₀ (sub_nonneg.mpr (seconds_mono (hat.trans hnow))), RateLimit.fill_le _ _ _⟩

theorem refill_reclaimed (h : a.Valid limits) (hnow : a.totalAt ≤ now) (full : Nat → Bool) (uid : UInt32) :
    refillTokens (((reclaimed limits full a uid now).find? uid).getD ⟨limits.peer.burst, now⟩).tokens
        (((reclaimed limits full a uid now).find? uid).getD ⟨limits.peer.burst, now⟩).atNs now limits.peer.rate
        limits.peer.burst = a.level limits uid now := by
  rw [← level_reclaimed h hnow full uid 0 0 uid, level]
  dsimp only
  cases hfind : (reclaimed limits full a uid now).find? uid with
  | none =>
    rw [Option.getD_none, refillTokens_eq limits.peer_full limits.peer.burst_nonneg le_rfl]
    exact RateLimit.fill_burst (sub_self _).ge
  | some b =>
    obtain ⟨⟨h₀, -⟩, hat⟩ := h.bucket uid b (find?_of_reclaimed hfind)
    exact refillTokens_eq limits.peer_full h₀ (hat.trans hnow)

/-- What a call does to the levels: it is admitted if both buckets have a token, or the listener's
has one where the peer goes without a bucket, and takes it out of these. -/
structure Admits (limits : EnrollLimits) (a : EnrollAdmission) (uid : UInt32) (now : Int)
    (r : Bool × EnrollAdmission) : Prop where
  valid : r.2.Valid limits
  totalAt : r.2.totalAt = now
  admitted : r.1 = true ↔ 1 ≤ a.listenerLevel limits now ∧ (r.2.tracks uid = true → 1 ≤ a.level limits uid now)
  total : r.2.total = a.listenerLevel limits now - if r.1 then 1 else 0
  levels : ∀ u, r.2.level limits u now =
    a.level limits u now - if (u = uid ∧ r.2.tracks uid = true) ∧ r.1 = true then 1 else 0

theorem admits (full : Nat → Bool) (h : a.Valid limits) {now : Int} (hnow : a.totalAt ≤ now) (uid : UInt32) :
    Admits limits a uid now (admitWith limits full a uid now) := by
  have hlisten : refillTokens a.total a.totalAt now limits.listener.rate limits.listener.burst =
      a.listenerLevel limits now := refillTokens_eq limits.listener_full h.total.1 hnow
  have hrange : 0 ≤ a.listenerLevel limits now ∧ a.listenerLevel limits now ≤ limits.listener.burst :=
    ⟨RateLimit.fill_nonneg h.total.1 (sub_nonneg.mpr (seconds_mono hnow)), RateLimit.fill_le _ _ _⟩
  have hpeer := level_range h hnow uid
  have hbucket : ∀ u b, (reclaimed limits full a uid now).find? u = some b →
      (0 ≤ b.tokens ∧ b.tokens ≤ limits.peer.burst) ∧ b.atNs ≤ now := fun u b hfind =>
    (h.bucket u b (find?_of_reclaimed hfind)).imp_right (·.trans hnow)
  have hput : ∀ x, 0 ≤ x → x ≤ limits.peer.burst → ∀ u b,
      ((reclaimed limits full a uid now).put uid ⟨x, now⟩).find? u = some b →
        (0 ≤ b.tokens ∧ b.tokens ≤ limits.peer.burst) ∧ b.atNs ≤ now := by
    intro x h₀ h₁ u b hfind
    rw [AssocMap.find?_put] at hfind
    split at hfind
    · cases hfind
      exact ⟨⟨h₀, h₁⟩, le_rfl⟩
    · exact hbucket u b hfind
  unfold admitWith
  dsimp only
  rw [hlisten, refill_reclaimed h hnow]
  split
  · next hfull =>
    have hnone : (reclaimed limits full a uid now).find? uid = none := by
      rw [Bool.and_eq_true, Option.isNone_iff_eq_none] at hfull
      cases hfind : (reclaimed limits full a uid now).find? uid with
      | none => rfl
      | some b => exact absurd ((find?_of_reclaimed hfind).symm.trans hfull.1) (Option.some_ne_none b)
    split
    · next hpoor =>
      refine ⟨⟨hrange, hbucket⟩, rfl, ?_, (sub_zero _).symm, fun u => ?_⟩
      · simp [not_le.mpr hpoor]
      · simp [level_reclaimed h hnow]
    · next hrich =>
      have hone := not_lt.mp hrich
      refine ⟨⟨⟨sub_nonneg.mpr hone, by linarith⟩, hbucket⟩, rfl, ?_, rfl, fun u => ?_⟩
      · simp [hone, tracks, hnone]
      · simp [level_reclaimed h hnow, tracks, hnone]
  · split
    · next hpoor =>
      refine ⟨⟨hrange, hput _ hpeer.1 hpeer.2⟩, rfl, ?_, (sub_zero _).symm, fun u => ?_⟩
      · simp only [Bool.false_eq_true, false_iff, tracks, AssocMap.find?_put_self, Option.isSome_some, forall_const,
          not_and, not_le]
        exact fun hone => hpoor.resolve_left (not_lt.mpr hone)
      · rw [level_put _ _ _ _ hpeer.2, level_reclaimed h hnow]
        by_cases hu : u = uid
        · simp [hu]
        · simp [hu]
    · next hrich =>
      rw [not_or, not_lt, not_lt] at hrich
      obtain ⟨hone, hone'⟩ := hrich
      refine ⟨⟨⟨sub_nonneg.mpr hone, by linarith⟩, hput _ (sub_nonneg.mpr hone') (by linarith)⟩, rfl, ?_, rfl,
        fun u => ?_⟩
      · simp [hone, hone']
      · rw [level_put _ _ _ _ (by linarith), level_reclaimed h hnow]
        by_cases hu : u = uid
        · simp [hu, tracks]
        · simp [hu]

theorem tracks_admitWith {full : Nat → Bool} {uid : UInt32}
    (h : ((a.perUID.find? uid).isNone && full (reclaimed limits full a uid now).size) = false) :
    (admitWith limits full a uid now).2.tracks uid = true := by
  unfold admitWith
  dsimp only
  rw [h, if_neg Bool.false_ne_true]
  split
  · simp [tracks]
  · simp [tracks]

theorem tracks_admit (h : (sweepIdle limits now a.perUID).size < enrollUIDTrackMax) :
    (admitUid limits a uid now).2.tracks uid = true := by
  refine tracks_admitWith ?_
  unfold reclaimed
  split
  · simp [not_le.mpr h]
  · next hno => simpa using hno

end EnrollAdmission

/-! ## Runs -/

/-- A call that has been answered, and whether the uid had a bucket of its own. -/
structure EnrollAnswer where
  uid : UInt32
  atNs : Int
  admitted : Bool
  tracked : Bool
  deriving DecidableEq

variable {as : List (UInt32 × Int)}

structure Enrolments where
  admission : EnrollAdmission
  answers : List EnrollAnswer := []

namespace Enrolments

open EnrollAdmission

variable {limits : EnrollLimits}

def new (limits : EnrollLimits) (start : Int) : Enrolments where
  admission := .new limits start

/-- A call of `uid` at `now`; the clock never goes back. -/
def step (full : Nat → Bool) (limits : EnrollLimits) (s : Enrolments) (c : UInt32 × Int) : Option Enrolments :=
  if s.admission.totalAt ≤ c.2 then
    let r := admitWith limits full s.admission c.1 c.2
    some ⟨r.2, ⟨c.1, c.2, r.1, r.2.tracks c.1⟩ :: s.answers⟩
  else none

/-- Fewer than `enrollUIDTrackMax` uids have a bucket that is not full. -/
def HasRoom (limits : EnrollLimits) (s : Enrolments) (c : UInt32 × Int) : Prop :=
  (s.admission.perUID.entries.filter fun e => !idle limits c.2 e.2).length < enrollUIDTrackMax

def listenerLog (s : Enrolments) : List (ℚ × Bool) := s.answers.map fun e => (seconds e.atNs, e.admitted)

/-- What the bucket of `uid` has been asked for. -/
def peerLog (s : Enrolments) : List (ℚ × Bool) :=
  s.answers.map fun e => (seconds e.atNs, decide ((e.uid = uid ∧ e.tracked = true) ∧ e.admitted = true))

structure Paid (limits : EnrollLimits) (s : Enrolments) : Prop where
  valid : s.admission.Valid limits
  listener : limits.listener.Metered s.listenerLog (seconds s.admission.totalAt) s.admission.total
  peer : ∀ uid, limits.peer.Metered (s.peerLog uid) (seconds s.admission.totalAt)
    (s.admission.level limits uid s.admission.totalAt)

theorem Paid.step {full : Nat → Bool} {s s' : Enrolments} {c : UInt32 × Int} (h : Paid limits s)
    (hs : step full limits s c = some s') : Paid limits s' := by
  obtain ⟨hnow, ⟨⟩⟩ := Option.ite_none_right_eq_some.mp hs
  have hadmits := admits full h.valid hnow c.1
  refine ⟨hadmits.valid, ?_, fun uid => ?_⟩
  · have hstep := h.listener.step (seconds_mono hnow) fun hr => (hadmits.admitted.mp hr).1
    dsimp only
    rw [hadmits.totalAt, hadmits.total]
    exact hstep
  · let r := admitWith limits full s.admission c.1 c.2
    have hlater := @level_later limits s.admission _ _ hnow uid
    have hstep := @RateLimit.Metered.step _ _ _ _ _ _ _ _ _
      (decide ((c.1 = uid ∧ r.2.tracks c.1 = true) ∧ r.1 = true)) (h.peer uid) (seconds_mono hnow) fun hspent => by
        obtain ⟨⟨rfl, htracks⟩, hr⟩ := of_decide_eq_true hspent
        rw [← hlater]
        exact (hadmits.admitted.mp hr).2 htracks
    dsimp only
    rw [hadmits.totalAt, hadmits.levels uid, hlater]
    simp only [decide_eq_true_eq] at hstep
    simp only [eq_comm (a := uid)]
    exact hstep

structure Same (limits : EnrollLimits) (s t : Enrolments) : Prop where
  answers : t.answers = s.answers
  total : t.admission.total = s.admission.total
  totalAt : t.admission.totalAt = s.admission.totalAt
  levels : ∀ uid, t.admission.level limits uid s.admission.totalAt = s.admission.level limits uid s.admission.totalAt

theorem Same.step {s t s' : Enrolments} {c : UInt32 × Int} (h : Same limits s t) (hs : s.admission.Valid limits)
    (ht : t.admission.Valid limits) (hroom : HasRoom limits s c)
    (hstep : Enrolments.step (enrollUIDTrackMax ≤ ·) limits s c = some s') :
    ∃ t', Enrolments.step (fun _ => false) limits t c = some t' ∧ Same limits s' t' := by
  obtain ⟨hnow, ⟨⟩⟩ := Option.ite_none_right_eq_some.mp hstep
  have hnow' : t.admission.totalAt ≤ c.2 := h.totalAt ▸ hnow
  have ha := @admits limits _ (enrollUIDTrackMax ≤ ·) hs _ hnow c.1
  have hb := @admits limits _ (fun _ => false) ht _ hnow' c.1
  have htracks : (admitWith limits (enrollUIDTrackMax ≤ ·) s.admission c.1 c.2).2.tracks c.1 = true :=
    tracks_admit c.1 hroom
  have htracks' : (admitWith limits (fun _ => false) t.admission c.1 c.2).2.tracks c.1 = true :=
    tracks_admitWith (Bool.and_false _)
  have hlisten : t.admission.listenerLevel limits c.2 = s.admission.listenerLevel limits c.2 := by
    rw [listenerLevel, listenerLevel, h.total, h.totalAt]
  have hlevel : ∀ u, t.admission.level limits u c.2 = s.admission.level limits u c.2 := fun u => by
    rw [level_later s.admission hnow, ← h.levels u, ← level_later t.admission hnow]
  have hr : (admitWith limits (fun _ => false) t.admission c.1 c.2).1 =
      (admitWith limits (enrollUIDTrackMax ≤ ·) s.admission c.1 c.2).1 := by
    rw [Bool.eq_iff_iff, ha.admitted, hb.admitted, htracks, htracks', hlisten, hlevel]
  refine ⟨_, if_pos hnow', ?_, ?_, ?_, fun u => ?_⟩
  · dsimp only
    rw [h.answers, hr, htracks, htracks']
  · dsimp only
    rw [ha.total, hb.total, hlisten, hr]
  · dsimp only
    rw [ha.totalAt, hb.totalAt]
  · dsimp only
    rw [ha.totalAt, ha.levels, hb.levels, hlevel, hr, htracks, htracks']

end Enrolments

end PerfAgent.Gpuprobe
