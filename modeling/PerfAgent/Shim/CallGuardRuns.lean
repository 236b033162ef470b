import PerfAgent.Shim.CallGuard
import Mathlib.Algebra.Order.Ring.Nat

/-!
# Runs of the call guard

What any interleaving of the guard's steps keeps.  Each stage of a call says whether its thread
has the mutex (`has`), whether the owner word is the thread's (`owns`), and how deep it is
(`depth?`); `ThreadOk` is that of one thread, and a step of another thread keeps it because the
other thread may change the three only while it has the mutex or takes it.

The depth is a 32-bit word, so this is about the runs in which no thread is nested 2³² deep
(`shallow`).  A thread that is loses the guard at its next leave.
-/

namespace PerfAgent.Shim

variable {Tid : Type} [DecidableEq Tid]

namespace GuardStage

/-- Whether a thread that is nested `n` deep has the mutex. -/
def has : GuardStage → Nat → Bool
  | .idle, n | .enterLoad, n | .tryLoad, n => 0 < n
  | .enterTryLock, _ | .enterWait, _ | .enterLock, _ | .tryTryLock, _ | .tryFailOther, _ => false
  | _, _ => true

def owns : GuardStage → Nat → Bool
  | .enterOwner, _ | .tryOwner, _ | .leaveUnlock, _ => false
  | stage, n => stage.has n

def depth? : GuardStage → Nat → Option Nat
  | .idle, n | .enterLoad, n | .tryLoad, n | .enterDepth, n | .leaveDepth, n
  | .tryFailSelf, n => some n
  | .enterReentry, n | .enterDeepest, n => some (n + 1)
  | .enterMaxDepth, _ | .enterEntry, _ | .tryEntry, _ => some 1
  | _, _ => none

def Fits : GuardStage → Nat → Prop
  | .idle, _ | .tryLoad, _ => True
  | .enterLoad, n => n + 1 < 2 ^ 32
  | .enterDepth, n | .enterReentry, n | .enterDeepest, n => 0 < n ∧ n + 1 < 2 ^ 32
  | .leaveDepth, n | .tryFailSelf, n => 0 < n
  | .leaveSetDepth, n | .leaveOwner, n | .leaveUnlock, n => n = 1
  | .enterTryLock, n | .enterWait, n | .enterLock, n | .enterOwner, n | .enterSetDepth, n
  | .enterMaxDepth, n | .enterEntry, n | .tryTryLock, n | .tryFailOther, n | .tryOwner, n
  | .trySetDepth, n | .tryEntry, n => n = 0

theorem has_of_owns {stage : GuardStage} {n : Nat} (h : stage.owns n = true) : stage.has n = true := by
  cases stage <;> first | exact h | cases h

theorem has_of_pos {stage : GuardStage} {n : Nat} (h : stage.Fits n) (hn : 0 < n) : stage.has n = true := by
  cases stage <;> simp_all [Fits, has]

end GuardStage

variable {spurious : Bool}

structure ThreadOk (g : CallGuard Tid) (t : Tid) (n : Nat) (stage : GuardStage) : Prop where
  mu : g.mu = some t ↔ stage.has n = true
  owner : g.owner = some t ↔ stage.owns n = true
  depth : stage.has n = true → ∀ d, stage.depth? n = some d → g.depth.toNat = d
  fits : stage.Fits n

namespace ThreadOk

variable {g g' : CallGuard Tid} {t u : Tid} {n : Nat} {stage stage' : GuardStage} {ended : CallEnd}

omit [DecidableEq Tid] in
theorem frame (h : ThreadOk g u n stage) (hmu : g'.mu = some u ↔ g.mu = some u)
    (howner : g'.owner = some u ↔ g.owner = some u)
    (hdepth : g.mu = some u → g'.depth = g.depth) : ThreadOk g' u n stage where
  mu := hmu.trans h.mu
  owner := howner.trans h.owner
  depth hhas := by
    rw [hdepth (h.mu.mpr hhas)]
    exact h.depth hhas
  fits := h.fits

omit [DecidableEq Tid] in
theorem move {n' : Nat} (h : ThreadOk g t n stage) (hsame : g'.mu = g.mu ∧ g'.owner = g.owner ∧ g'.depth = g.depth)
    (hhas : stage'.has n' = stage.has n) (howns : stage'.owns n' = stage.owns n)
    (hknown : stage.has n = true → ∀ d, stage'.depth? n' = some d → stage.depth? n = some d)
    (hfits : stage'.Fits n') : ThreadOk g' t n' stage' where
  mu := by rw [hsame.1, hhas, h.mu]
  owner := by rw [hsame.2.1, howns, h.owner]
  depth hhas' d hd := by
    rw [hsame.2.2]
    exact h.depth (hhas ▸ hhas') d (hknown (hhas ▸ hhas') d hd)
  fits := hfits

theorem tryLock {held failed : GuardStage} {spurious : Bool} (h : ThreadOk g t 0 stage)
    (ha : g.tryLock t spurious held failed = some (g', stage', ended))
    (hhas : stage.has 0 = false)
    (hheld : held.has 0 = true ∧ held.owns 0 = false ∧ held.depth? 0 = none ∧ held.Fits 0)
    (hfailed : failed.has 0 = false ∧ failed.Fits 0) :
    ended = .underWay ∧ ThreadOk g' t 0 stage' := by
  have hnot : stage.owns 0 = false := eq_false_of_ne_true fun ho =>
    Bool.false_ne_true (hhas.symm.trans (GuardStage.has_of_owns ho))
  have hnotFailed : failed.owns 0 = false := eq_false_of_ne_true fun ho =>
    Bool.false_ne_true (hfailed.1.symm.trans (GuardStage.has_of_owns ho))
  unfold CallGuard.tryLock at ha
  split at ha
  · cases ha
  split at ha
  · cases ha
    refine ⟨rfl, ⟨iff_of_true rfl hheld.1, ?_, fun _ d hd => ?_, hheld.2.2.2⟩⟩
    · rw [hheld.2.1, h.owner, hnot]
    · rw [hheld.2.2.1] at hd
      cases hd
  · cases ha
    exact ⟨rfl, h.move ⟨rfl, rfl, rfl⟩ (hfailed.1.trans hhas.symm) (hnotFailed.trans hnot.symm)
      (fun hh => absurd (hhas.symm.trans hh) Bool.false_ne_true) hfailed.2⟩

theorem advance (h : ThreadOk g t n stage) {spurious : Bool}
    (ha : g.advance t spurious stage = some (g', stage', ended)) :
    ThreadOk g' t (GuardSystem.nestingAfter n ended) stage' := by
  have hfits := h.fits
  cases stage with
  | idle => cases ha
  | enterLoad =>
    cases ha
    by_cases ho : g.owner = some t
    · have hn : 0 < n := of_decide_eq_true (h.owner.mp ho)
      rw [if_pos ho]
      exact h.move ⟨rfl, rfl, rfl⟩ (h.owner.mp ho).symm (h.owner.mp ho).symm (fun _ _ => id) ⟨hn, hfits⟩
    · have hn : n = 0 := Nat.eq_zero_of_not_pos fun hn => ho (h.owner.mpr (decide_eq_true hn))
      subst hn
      rw [if_neg ho]
      exact h.move ⟨rfl, rfl, rfl⟩ rfl rfl nofun rfl
  | enterDepth =>
    cases ha
    refine ⟨h.mu, h.owner, fun _ d hd => ?_, hfits⟩
    cases hd
    change (g.depth + 1).toNat = n + 1
    have hdepth := h.depth rfl n rfl
    rw [UInt32.toNat_add, hdepth]
    exact Nat.mod_eq_of_lt hfits.2
  | enterReentry =>
    cases ha
    exact h.move ⟨rfl, rfl, rfl⟩ rfl rfl (fun _ _ => id) hfits
  | enterDeepest =>
    cases ha
    have hpos : GuardStage.has .idle (n + 1) = true := decide_eq_true (Nat.succ_pos n)
    split
    · exact h.move ⟨rfl, rfl, rfl⟩ hpos hpos (fun _ _ => id) trivial
    · exact h.move ⟨rfl, rfl, rfl⟩ hpos hpos (fun _ _ => id) trivial
  | enterTryLock =>
    cases (show n = 0 from hfits)
    obtain ⟨rfl, hok⟩ := h.tryLock ha rfl ⟨rfl, rfl, rfl, rfl⟩ ⟨rfl, rfl⟩
    exact hok
  | enterWait =>
    cases ha
    exact h.move ⟨rfl, rfl, rfl⟩ rfl rfl (fun _ _ => id) hfits
  | enterLock =>
    simp only [CallGuard.advance] at ha
    split at ha
    · cases ha
      exact ⟨iff_of_true rfl rfl, h.owner, fun _ _ => nofun, hfits⟩
    · cases ha
  | enterOwner =>
    cases ha
    exact ⟨h.mu, iff_of_true rfl rfl, fun _ _ => nofun, hfits⟩
  | enterSetDepth =>
    cases ha
    exact ⟨h.mu, h.owner, fun _ d hd => by cases hd; rfl, hfits⟩
  | enterMaxDepth =>
    cases ha
    split
    · exact h.move ⟨rfl, rfl, rfl⟩ rfl rfl (fun _ _ => id) hfits
    · exact h.move ⟨rfl, rfl, rfl⟩ rfl rfl (fun _ _ => id) hfits
  | enterEntry =>
    cases ha
    cases (show n = 0 from hfits)
    exact h.move ⟨rfl, rfl, rfl⟩ rfl rfl (fun _ _ => id) trivial
  | leaveDepth =>
    simp only [CallGuard.advance] at ha
    have hdepth := h.depth rfl n rfl
    split at ha
    · next hdeep =>
        cases ha
        have hdeep' : 1 < n := by rw [← hdepth]; exact hdeep
        have hpos : GuardStage.has .idle (n - 1) = true :=
          decide_eq_true (Nat.sub_pos_of_lt hdeep')
        refine ⟨iff_of_true (h.mu.mpr rfl) hpos, iff_of_true (h.owner.mpr rfl) hpos, fun _ d hd => ?_, trivial⟩
        cases hd
        change (g.depth - 1).toNat = n - 1
        rw [UInt32.toNat_sub_of_le _ _ (UInt32.le_of_lt hdeep), hdepth]
        rfl
    · next hflat =>
        cases ha
        have hn : n = 1 := by
          have hle : g.depth.toNat ≤ 1 := Nat.not_lt.mp hflat
          have hpos : 0 < n := hfits
          omega
        exact h.move ⟨rfl, rfl, rfl⟩ rfl rfl (fun _ _ => nofun) hn
  | leaveSetDepth =>
    cases ha
    exact ⟨h.mu, h.owner, fun _ _ => nofun, hfits⟩
  | leaveOwner =>
    cases ha
    exact ⟨h.mu, iff_of_false nofun nofun, fun _ _ => nofun, hfits⟩
  | leaveUnlock =>
    simp only [CallGuard.advance] at ha
    split at ha
    · cases ha
      cases (show n = 1 from hfits)
      exact ⟨iff_of_false nofun nofun, h.owner, nofun, trivial⟩
    · cases ha
  | tryLoad =>
    cases ha
    by_cases ho : g.owner = some t
    · have hn : 0 < n := of_decide_eq_true (h.owner.mp ho)
      rw [if_pos ho]
      exact h.move ⟨rfl, rfl, rfl⟩ (h.owner.mp ho).symm (h.owner.mp ho).symm (fun _ _ => id) hn
    · have hn : n = 0 := Nat.eq_zero_of_not_pos fun hn => ho (h.owner.mpr (decide_eq_true hn))
      subst hn
      rw [if_neg ho]
      exact h.move ⟨rfl, rfl, rfl⟩ rfl rfl nofun rfl
  | tryFailSelf =>
    cases ha
    have hpos : GuardStage.has .idle n = true := decide_eq_true hfits
    exact h.move ⟨rfl, rfl, rfl⟩ hpos hpos (fun _ _ => id) trivial
  | tryTryLock =>
    cases (show n = 0 from hfits)
    obtain ⟨rfl, hok⟩ := h.tryLock ha rfl ⟨rfl, rfl, rfl, rfl⟩ ⟨rfl, rfl⟩
    exact hok
  | tryFailOther =>
    cases ha
    cases (show n = 0 from hfits)
    exact h.move ⟨rfl, rfl, rfl⟩ rfl rfl nofun trivial
  | tryOwner =>
    cases ha
    exact ⟨h.mu, iff_of_true rfl rfl, fun _ _ => nofun, hfits⟩
  | trySetDepth =>
    cases ha
    exact ⟨h.mu, h.owner, fun _ d hd => by cases hd; rfl, hfits⟩
  | tryEntry =>
    cases ha
    cases (show n = 0 from hfits)
    exact h.move ⟨rfl, rfl, rfl⟩ rfl rfl (fun _ _ => id) trivial

/-- What a thread's step may change for the others: it takes the mutex or gives it back, and
writes the owner word and the depth only while it has it. -/
theorem changes (h : ThreadOk g t n stage) (ha : g.advance t spurious stage = some (g', stage', ended)) :
    (g'.mu = g.mu ∨ g.mu = none ∧ g'.mu = some t ∨ g.mu = some t ∧ g'.mu = none) ∧
    (g'.owner = g.owner ∧ g'.depth = g.depth ∨
      g.mu = some t ∧ (g'.owner = g.owner ∨ g'.owner = some t ∨ g'.owner = none)) := by
  have hmu := h.mu
  have hlock : ∀ {held failed : GuardStage}, g.tryLock t spurious held failed =
      some (g', stage', ended) → (g'.mu = g.mu ∨ g.mu = none ∧ g'.mu = some t) ∧
        g'.owner = g.owner ∧ g'.depth = g.depth := fun {held failed} ha => by
    unfold CallGuard.tryLock at ha
    split at ha
    · cases ha
    · split at ha
      · next hfree =>
          cases ha
          rw [Bool.and_eq_true, Option.isNone_iff_eq_none] at hfree
          exact ⟨.inr ⟨hfree.1, rfl⟩, rfl, rfl⟩
      · cases ha
        exact ⟨.inl rfl, rfl, rfl⟩
  cases stage with
  | idle => cases ha
  | enterTryLock | tryTryLock =>
    obtain ⟨h₁, h₂⟩ := hlock ha
    exact ⟨h₁.imp_right .inl, .inl h₂⟩
  | enterLock =>
    simp only [CallGuard.advance] at ha
    split at ha
    · next hfree =>
        cases ha
        exact ⟨.inr (.inl ⟨hfree, rfl⟩), .inl ⟨rfl, rfl⟩⟩
    · cases ha
  | leaveUnlock =>
    simp only [CallGuard.advance] at ha
    split at ha
    · next hheld =>
        cases ha
        exact ⟨.inr (.inr ⟨hheld, rfl⟩), .inl ⟨rfl, rfl⟩⟩
    · cases ha
  | enterDeepest | enterMaxDepth =>
    cases ha
    split <;> exact ⟨.inl rfl, .inl ⟨rfl, rfl⟩⟩
  | leaveDepth =>
    simp only [CallGuard.advance] at ha
    split at ha
    · cases ha
      exact ⟨.inl rfl, .inr ⟨hmu.mpr rfl, .inl rfl⟩⟩
    · cases ha
      exact ⟨.inl rfl, .inl ⟨rfl, rfl⟩⟩
  | enterDepth | enterSetDepth | leaveSetDepth | trySetDepth =>
    cases ha
    exact ⟨.inl rfl, .inr ⟨hmu.mpr rfl, .inl rfl⟩⟩
  | enterOwner | tryOwner =>
    cases ha
    exact ⟨.inl rfl, .inr ⟨hmu.mpr rfl, .inr (.inl rfl)⟩⟩
  | leaveOwner =>
    cases ha
    exact ⟨.inl rfl, .inr ⟨hmu.mpr rfl, .inr (.inr rfl)⟩⟩
  | enterLoad | enterReentry | enterWait | enterEntry | tryLoad | tryFailSelf | tryFailOther
  | tryEntry =>
    cases ha
    exact ⟨.inl rfl, .inl ⟨rfl, rfl⟩⟩

theorem advance_other {m : Nat} {other : GuardStage} (h : ThreadOk g t n stage) (hu : ThreadOk g u m other)
    (hne : u ≠ t) (ha : g.advance t spurious stage = some (g', stage', ended)) : ThreadOk g' u m other := by
  obtain ⟨hmu, howner⟩ := h.changes ha
  have hnot : some t ≠ some u := fun heq => hne (Option.some.inj heq).symm
  refine hu.frame ?_ ?_ fun hheld => ?_
  · rcases hmu with heq | ⟨hfree, htaken⟩ | ⟨hheld, hfreed⟩
    · rw [heq]
    · rw [hfree, htaken]
      exact iff_of_false hnot nofun
    · rw [hheld, hfreed]
      exact iff_of_false nofun hnot
  · rcases howner with ⟨heq, -⟩ | ⟨hheld, hwrite⟩
    · rw [heq]
    · have hout : g.owner ≠ some u := fun ho => by
        have hmu' := hu.mu.mpr (GuardStage.has_of_owns (hu.owner.mp ho))
        exact hnot (hheld.symm.trans hmu')
      rcases hwrite with heq | heq | heq
      · rw [heq]
      · rw [heq]
        exact iff_of_false hnot hout
      · rw [heq]
        exact iff_of_false nofun hout
  · rcases howner with ⟨-, heq⟩ | ⟨hheld', -⟩
    · exact heq
    · exact absurd (hheld'.symm.trans hheld) hnot

theorem released_iff (h : ThreadOk g t n stage) (ha : g.advance t spurious stage = some (g', stage', ended)) :
    g.mu = some t ∧ g'.mu ≠ some t ↔ n = 1 ∧ GuardSystem.nestingAfter n ended = 0 := by
  -- a step that leaves the mutex alone and is not the end of a leave
  have hkeeps : g'.mu = g.mu → ended ≠ .left →
      (g.mu = some t ∧ g'.mu ≠ some t ↔ n = 1 ∧ GuardSystem.nestingAfter n ended = 0) :=
    fun hmu hended => by
      refine iff_of_false (fun hc => hc.2 (hmu.trans hc.1)) fun hc => ?_
      cases ended with
      | left => exact hended rfl
      | entered => exact absurd hc.2 (Nat.succ_ne_zero n)
      | underWay | refused => exact Nat.one_ne_zero (hc.1.symm.trans hc.2)
  -- a thread that waits for the mutex is not inside
  have hwaits : stage.has n = false → n = 0 →
      (g.mu = some t ∧ g'.mu ≠ some t ↔ n = 1 ∧ GuardSystem.nestingAfter n ended = 0) :=
    fun hhas hn => by
      refine iff_of_false (fun hc => ?_) fun hc => Nat.one_ne_zero (hc.1.symm.trans hn)
      exact Bool.false_ne_true (hhas.symm.trans (h.mu.mp hc.1))
  have hfits := h.fits
  cases stage with
  | idle => cases ha
  | enterTryLock | tryTryLock | enterLock => exact hwaits rfl hfits
  | leaveUnlock =>
    simp only [CallGuard.advance] at ha
    split at ha
    · next hheld =>
        cases ha
        exact iff_of_true ⟨hheld, nofun⟩ ⟨hfits, congrArg (· - 1) hfits⟩
    · cases ha
  | leaveDepth =>
    simp only [CallGuard.advance] at ha
    split at ha
    · next hdeep =>
        cases ha
        refine iff_of_false (fun hc => hc.2 hc.1) fun hc => ?_
        have hdepth := h.depth rfl n rfl
        have hdeep' : 1 < n := by rw [← hdepth]; exact hdeep
        exact Nat.ne_of_gt hdeep' hc.1
    · cases ha
      exact hkeeps rfl nofun
  | enterDeepest | enterMaxDepth =>
    cases ha
    refine hkeeps ?_ nofun
    split <;> rfl
  | _ =>
    cases ha
    exact hkeeps rfl nofun

end ThreadOk

def GuardStage.counted (stage : GuardStage) : Nat := (stage == .enterDeepest).toNat

theorem CallGuard.advance_counts {g g' : CallGuard Tid} {t : Tid} {stage stage' : GuardStage} {ended : CallEnd}
    (ha : g.advance t spurious stage = some (g', stage', ended)) :
    g'.entries + g'.reentries + stage.counted =
      g.entries + g.reentries + (ended == .entered).toNat + stage'.counted := by
  have hlock : ∀ {held failed : GuardStage}, held.counted = 0 → failed.counted = 0 →
      g.tryLock t spurious held failed = some (g', stage', ended) →
      g'.entries + g'.reentries = g.entries + g.reentries + (ended == .entered).toNat + stage'.counted :=
    fun {held failed} hh hf ha => by
      unfold CallGuard.tryLock at ha
      split at ha
      · cases ha
      · split at ha
        · cases ha
          rw [hh]
          rfl
        · cases ha
          rw [hf]
          rfl
  cases stage with
  | idle => cases ha
  | enterTryLock | tryTryLock => exact hlock rfl rfl ha
  | enterLoad | tryLoad =>
    cases ha
    split <;> rfl
  | enterLock | leaveUnlock | leaveDepth =>
    simp only [advance] at ha
    split at ha
    · cases ha
      rfl
    · cases ha <;> rfl
  | enterDeepest | enterMaxDepth =>
    cases ha
    split <;> rfl
  | enterEntry | tryEntry =>
    cases ha
    change g.entries + 1 + g.reentries + 0 = g.entries + g.reentries + 1 + 0
    omega
  | enterDepth | enterReentry | enterWait | enterOwner | enterSetDepth | leaveSetDepth | leaveOwner
  | tryFailSelf | tryFailOther | tryOwner | trySetDepth =>
    cases ha
    rfl

namespace GuardSystem

/-- How many enters are counted and have not returned; only the thread that has the mutex can
be there. -/
def inFlight (s : GuardSystem Tid) : Nat := s.guard.mu.elim 0 fun t => (s.stage t).counted

/-- The guard is what every thread's stage says, and has counted what has succeeded. -/
structure Inv (s : GuardSystem Tid) : Prop where
  threads : ∀ t, ThreadOk s.guard t (s.nesting t) (s.stage t)
  counted : s.guard.entries + s.guard.reentries = s.succeeded + s.inFlight

omit [DecidableEq Tid] in
theorem inv_new : Inv ({} : GuardSystem Tid) where
  threads _ := ⟨iff_of_false nofun nofun, iff_of_false nofun nofun, nofun, trivial⟩
  counted := rfl

theorem Inv.update {s : GuardSystem Tid} (h : s.Inv) {t : Tid} {guard : CallGuard Tid}
    {stage : GuardStage} {n succeeded : Nat} (hthis : ThreadOk guard t n stage)
    (hothers : ∀ u, u ≠ t → ThreadOk guard u (s.nesting u) (s.stage u))
    (hmu : guard.mu = s.guard.mu ∨ s.guard.mu = none ∧ guard.mu = some t ∨ s.guard.mu = some t ∧ guard.mu = none)
    (hcount : guard.entries + guard.reentries + (s.stage t).counted + s.succeeded =
      s.guard.entries + s.guard.reentries + succeeded + stage.counted) :
    Inv { guard := guard, stage := Function.update s.stage t stage
          nesting := Function.update s.nesting t n, succeeded := succeeded } where
  threads u := by
    by_cases hu : u = t
    · subst hu
      simpa using hthis
    · simpa [hu] using hothers u hu
  counted := by
    have hbefore := h.counted
    -- a thread that has not the mutex is not in between
    have hout : ∀ {g : CallGuard Tid} {n stage}, ThreadOk g t n stage → g.mu ≠ some t →
        stage.counted = 0 := fun {g n stage} hok hne => by
      cases stage with
      | enterDeepest => exact absurd (hok.mu.mpr rfl) hne
      | _ => rfl
    have hthen := hout (h.threads t)
    have hnow := hout hthis
    have hsame : ∀ u, u ≠ t → (Function.update s.stage t stage u).counted = (s.stage u).counted :=
      fun u hu => by rw [Function.update_of_ne hu]
    have hself : (Function.update s.stage t stage t).counted = stage.counted := by
      rw [Function.update_self]
    unfold inFlight at hbefore ⊢
    dsimp only
    rcases hmu with hmu | ⟨hfree, htaken⟩ | ⟨hheld, hfreed⟩
    · rw [hmu] at hnow ⊢
      cases hm : s.guard.mu with
      | none =>
        rw [hm] at hbefore hthen hnow
        have := hthen nofun
        have := hnow nofun
        simp only [Option.elim_none] at hbefore ⊢
        omega
      | some u =>
        rw [hm] at hbefore hthen hnow
        simp only [Option.elim_some] at hbefore ⊢
        by_cases hu : u = t
        · subst hu
          rw [hself]
          omega
        · rw [hsame u hu]
          have hne : some u ≠ some t := fun heq => hu (Option.some.inj heq)
          have := hthen hne
          have := hnow hne
          omega
    · rw [hfree] at hbefore hthen
      rw [htaken, Option.elim_some, hself]
      have := hthen nofun
      simp only [Option.elim_none] at hbefore
      omega
    · rw [hheld, Option.elim_some] at hbefore
      rw [hfreed, Option.elim_none]
      rw [hfreed] at hnow
      have := hnow nofun
      omega

theorem Inv.start {s : GuardSystem Tid} (h : s.Inv) {t : Tid} {stage : GuardStage}
    (hidle : s.stage t = .idle) (hok : ThreadOk s.guard t (s.nesting t) stage)
    (hcounted : stage.counted = 0) : Inv (s.start t stage) := by
  have hcount : s.guard.entries + s.guard.reentries + (s.stage t).counted + s.succeeded =
      s.guard.entries + s.guard.reentries + s.succeeded + stage.counted := by
    rw [hidle, hcounted]
    rfl
  have hinv := h.update hok (fun u _ => h.threads u) (.inl rfl) hcount
  rwa [Function.update_eq_self] at hinv

def shallow (s : GuardSystem Tid) : Action Tid → Prop
  | .enter t => s.nesting t + 1 < 2 ^ 32
  | _ => True

instance (s : GuardSystem Tid) : DecidablePred s.shallow := fun a => by
  cases a <;> (dsimp only [shallow]; infer_instance)

theorem Inv.step {s s' : GuardSystem Tid} {a : Action Tid} (h : s.Inv) (ha : s.shallow a)
    (hs : s.step a = some s') : s'.Inv := by
  cases a with
  | enter t =>
    obtain ⟨hidle, ⟨⟩⟩ := Option.ite_none_right_eq_some.mp hs
    have hok := h.threads t
    rw [hidle] at hok
    exact h.start hidle (hok.move ⟨rfl, rfl, rfl⟩ rfl rfl (fun _ _ => id) ha) rfl
  | leave t =>
    obtain ⟨⟨hidle, hn⟩, ⟨⟩⟩ := Option.ite_none_right_eq_some.mp hs
    have hok := h.threads t
    rw [hidle] at hok
    have hpos : GuardStage.has .idle (s.nesting t) = true := decide_eq_true hn
    exact h.start hidle (hok.move ⟨rfl, rfl, rfl⟩ hpos.symm hpos.symm (fun _ _ => id) hn) rfl
  | tryEnter t =>
    obtain ⟨hidle, ⟨⟩⟩ := Option.ite_none_right_eq_some.mp hs
    have hok := h.threads t
    rw [hidle] at hok
    exact h.start hidle (hok.move ⟨rfl, rfl, rfl⟩ rfl rfl (fun _ _ => id) trivial) rfl
  | advance t spurious =>
    obtain ⟨⟨guard, stage, ended⟩, hadv, rfl⟩ := Option.map_eq_some_iff.mp hs
    have hcounts := CallGuard.advance_counts hadv
    exact h.update ((h.threads t).advance hadv) (fun u hu => (h.threads t).advance_other (h.threads u) hu hadv)
      ((h.threads t).changes hadv).1 (by omega)

def ReachesShallow (as : List (Action Tid)) (s : GuardSystem Tid) : Prop :=
  Run (fun s a s' => shallow s a ∧ step s a = some s') {} as s

theorem ReachesShallow.inv {as : List (Action Tid)} {s : GuardSystem Tid} (h : ReachesShallow as s) : s.Inv :=
  Run.invariant (I := fun _ s => s.Inv) inv_new (fun _ _ _ _ _ hi ha => hi.step ha.1 ha.2) h

/-! ## The contract of the guard -/

/-- What the guard promises in a state: one thread is inside, the answer of
`held_by_this_thread` is the mutex's, the depth is the holder's, the mutex is given back by the
outermost leave and by nothing else, a try never waits and succeeds only where nobody is inside,
and the counters add up. -/
structure Sound (s : GuardSystem Tid) : Prop where
  exclusive : ∀ t u, 0 < s.nesting t → 0 < s.nesting u → t = u
  held : ∀ t, s.stage t = .idle → (s.guard.heldByThisThread t = true ↔ s.guard.mu = some t)
  inside : ∀ t, s.stage t = .idle → (s.guard.mu = some t ↔ 0 < s.nesting t)
  depth : ∀ t, s.stage t = .idle → 0 < s.nesting t → s.guard.depth.toNat = s.nesting t
  released : ∀ a s', s.step a = some s' → ∀ t,
    s.guard.mu = some t ∧ s'.guard.mu ≠ some t ↔ s.nesting t = 1 ∧ s'.nesting t = 0
  advances : ∀ t spurious, s.stage t ≠ .idle → (s.step (.advance t spurious)).isSome = true ∨
    s.stage t = .enterLock ∧ ∃ u, u ≠ t ∧ s.guard.mu = some u
  tryAdvances : ∀ t spurious, (s.stage t).isTry = true → (s.step (.advance t spurious)).isSome = true
  trySucceeds : ∀ t, (s.stage t).tryHolds = true → ∀ u, s.nesting u = 0
  counted : (∀ t, s.stage t ≠ .enterDeepest) → s.guard.entries + s.guard.reentries = s.succeeded

omit [DecidableEq Tid] in
theorem Inv.mu_of_pos {s : GuardSystem Tid} (h : s.Inv) {t : Tid} (ht : 0 < s.nesting t) : s.guard.mu = some t :=
  (h.threads t).mu.mpr (GuardStage.has_of_pos (h.threads t).fits ht)

theorem Inv.advances {s : GuardSystem Tid} (h : s.Inv) (t : Tid) (spurious : Bool)
    (hbusy : s.stage t ≠ .idle) : (s.step (.advance t spurious)).isSome = true ∨
      s.stage t = .enterLock ∧ ∃ u, u ≠ t ∧ s.guard.mu = some u := by
  have hok := h.threads t
  simp only [GuardSystem.step, Option.isSome_map]
  have hlock : ∀ held failed, s.guard.mu ≠ some t →
      (s.guard.tryLock t spurious held failed).isSome = true := fun held failed hne => by
    unfold CallGuard.tryLock
    rw [if_neg hne]
    split <;> rfl
  cases hst : s.stage t with
  | idle => exact absurd hst hbusy
  | enterTryLock | tryTryLock =>
    rw [hst] at hok
    exact .inl (hlock _ _ fun hmu => Bool.false_ne_true (hok.mu.mp hmu))
  | enterLock =>
    rw [hst] at hok
    cases hmu : s.guard.mu with
    | none =>
      left
      simp [CallGuard.advance, hmu]
    | some u =>
      refine .inr ⟨rfl, u, fun heq => ?_, rfl⟩
      exact Bool.false_ne_true (hok.mu.mp (hmu.trans (congrArg some heq)))
  | leaveUnlock =>
    rw [hst] at hok
    left
    simp [CallGuard.advance, hok.mu.mpr rfl]
  | leaveDepth =>
    left
    simp only [CallGuard.advance]
    split <;> rfl
  | _ => exact .inl rfl

theorem Inv.released {s s' : GuardSystem Tid} (h : s.Inv) {a : Action Tid} (hs : s.step a = some s') (t : Tid) :
    s.guard.mu = some t ∧ s'.guard.mu ≠ some t ↔ s.nesting t = 1 ∧ s'.nesting t = 0 := by
  have hstart : ∀ u stage, some (s.start u stage) = some s' →
      (s.guard.mu = some t ∧ s'.guard.mu ≠ some t ↔ s.nesting t = 1 ∧ s'.nesting t = 0) :=
    fun u stage heq => by
      cases heq
      refine iff_of_false (fun hc => hc.2 hc.1) fun hc => ?_
      exact absurd (hc.1.symm.trans hc.2) Nat.one_ne_zero
  cases a with
  | enter u => exact hstart u _ (Option.ite_none_right_eq_some.mp hs).2
  | leave u => exact hstart u _ (Option.ite_none_right_eq_some.mp hs).2
  | tryEnter u => exact hstart u _ (Option.ite_none_right_eq_some.mp hs).2
  | advance u spurious =>
    obtain ⟨⟨guard, stage, ended⟩, hadv, rfl⟩ := Option.map_eq_some_iff.mp hs
    by_cases ht : t = u
    · subst ht
      dsimp only
      rw [Function.update_self]
      exact (h.threads t).released_iff hadv
    · dsimp only
      rw [Function.update_of_ne ht]
      refine iff_of_false (fun hc => ?_) fun hc => Nat.one_ne_zero (hc.1.symm.trans hc.2)
      rcases ((h.threads u).changes hadv).1 with heq | ⟨hfree, -⟩ | ⟨hheld, -⟩
      · exact hc.2 (heq.trans hc.1)
      · cases hfree.symm.trans hc.1
      · exact ht (Option.some.inj (hc.1.symm.trans hheld))

/-- The guard keeps its promises.  In every run in which no thread is nested 2³² deep, every
state is sound. -/
theorem call_guard_sound {as : List (Action Tid)} {s : GuardSystem Tid} (h : ReachesShallow as s) : s.Sound := by
  have hinv := h.inv
  refine ⟨fun t u ht hu => ?_, fun t hidle => ?_, fun t hidle => ?_, fun t hidle ht => ?_,
    fun a s' hs t => hinv.released hs t, fun t spurious => hinv.advances t spurious,
    fun t spurious htry => ?_, fun t htry u => ?_, fun hnone => ?_⟩
  · exact Option.some.inj ((hinv.mu_of_pos ht).symm.trans (hinv.mu_of_pos hu))
  · have hok := hinv.threads t
    rw [hidle] at hok
    rw [CallGuard.heldByThisThread, beq_iff_eq, hok.owner, hok.mu]
    rfl
  · have hok := hinv.threads t
    rw [hidle] at hok
    exact hok.mu.trans (decide_eq_true_iff)
  · have hok := hinv.threads t
    rw [hidle] at hok
    exact hok.depth (decide_eq_true ht) _ rfl
  · rcases hinv.advances t spurious (fun hidle => by rw [hidle] at htry; cases htry) with
      hstep | ⟨hlock, -⟩
    · exact hstep
    · rw [hlock] at htry
      cases htry
  · have hok := hinv.threads t
    -- the thread has the mutex and is not inside yet
    have hout : (s.stage t).has (s.nesting t) = true ∧ s.nesting t = 0 := by
      have hfits := hok.fits
      cases hst : s.stage t <;> rw [hst] at htry hfits <;> first | exact ⟨rfl, hfits⟩ | cases htry
    refine Nat.eq_zero_of_not_pos fun hu => ?_
    have heq : t = u := Option.some.inj ((hok.mu.mpr hout.1).symm.trans (hinv.mu_of_pos hu))
    rw [← heq, hout.2] at hu
    exact Nat.lt_irrefl 0 hu
  · have hcounted := hinv.counted
    have hzero : s.inFlight = 0 := by
      unfold inFlight
      cases s.guard.mu with
      | none => rfl
      | some t =>
        cases hst : s.stage t with
        | enterDeepest => exact absurd hst (hnone t)
        | _ => rw [Option.elim_some, hst]; rfl
    omega

def twoCallers : List (Action Nat) :=
  .enter 1 :: List.replicate 6 (.advance 1 false) ++ .enter 1 :: List.replicate 4 (.advance 1 false) ++
    .tryEnter 2 :: List.replicate 3 (.advance 2 false)

theorem call_guard_sound_two_callers : ∃ s : GuardSystem Nat, ReachesShallow twoCallers s ∧ s.nesting 1 = 2 ∧
      s.guard.entries = 1 ∧ s.guard.reentries = 1 ∧ s.guard.tryFailedOther = 1 ∧ s.succeeded = 2 ∧
      s.Sound := by
  obtain ⟨s, hr, h⟩ := exists_guarded_run (@step Nat _) shallow {} twoCallers
    (fun s => s.nesting 1 == 2 && s.guard.entries == 1 && s.guard.reentries == 1 &&
      s.guard.tryFailedOther == 1 && s.succeeded == 2) (by decide +kernel)
  simp only [Bool.and_eq_true, beq_iff_eq] at h
  exact ⟨s, hr, h.1.1.1.1, h.1.1.1.2, h.1.1.2, h.1.2, h.2, call_guard_sound hr⟩

/-! ## The word of the depth -/

theorem exists_returned {s : GuardSystem Unit} (h : s.stage () = .enterDeepest) :
    ∃ s', s.step (.advance () false) = some s' ∧ s'.stage () = .idle ∧
      s'.nesting () = s.nesting () + 1 ∧ s'.guard.mu = s.guard.mu ∧
      s'.guard.owner = s.guard.owner ∧ s'.guard.depth = s.guard.depth := by
  simp only [step, h, CallGuard.advance, Option.map_some]
  refine ⟨_, rfl, ?_, ?_, ?_, ?_, ?_⟩
  · dsimp only
    rw [Function.update_self]
  · dsimp only
    rw [Function.update_self]
    rfl
  · split <;> rfl
  · split <;> rfl
  · split <;> rfl

/-- A thread can be nested as deep as it likes, with the depth that is left of that in its
word. -/
theorem exists_nested (n : Nat) : ∃ as, ∃ s : GuardSystem Unit, Reaches as s ∧
    s.stage () = .idle ∧ s.nesting () = n + 1 ∧ s.guard.mu = some () ∧
    s.guard.owner = some () ∧ s.guard.depth.toNat = (n + 1) % 2 ^ 32 := by
  induction n with
  | zero =>
    obtain ⟨s, hr, h⟩ := @exists_run _ _ (@step Unit _) {} (.enter () :: List.replicate 6 (.advance () false))
      (fun s => s.stage () == .idle && s.nesting () == 1 && s.guard.mu == some () &&
        s.guard.owner == some () && s.guard.depth == 1) (by decide +kernel)
    simp only [Bool.and_eq_true, beq_iff_eq] at h
    exact ⟨_, s, hr, h.1.1.1.1, h.1.1.1.2, h.1.1.2, h.1.2, by rw [h.2]; rfl⟩
  | succ n ih =>
    obtain ⟨as, s, hr, hidle, hn, hmu, howner, hdepth⟩ := ih
    have h₁ : s.step (.enter ()) = some (s.start () .enterLoad) := if_pos hidle
    have h₂ : (s.start () .enterLoad).step (.advance () false) = some (s.start () .enterDepth) := by
      simp [step, start, CallGuard.advance, howner, nestingAfter]
    have h₃ : (s.start () .enterDepth).step (.advance () false) = some
        ({ s with guard := { s.guard with depth := s.guard.depth + 1 } }.start () .enterReentry) := by
      simp [step, start, CallGuard.advance, nestingAfter]
    have h₄ : ({ s with guard := { s.guard with depth := s.guard.depth + 1 } }.start ()
        .enterReentry).step (.advance () false) = some
        ({ s with guard := { s.guard with
            depth := s.guard.depth + 1
            reentries := s.guard.reentries + 1 } }.start () .enterDeepest) := by
      simp [step, start, CallGuard.advance, nestingAfter]
    obtain ⟨s', h₅, hidle', hn', hmu', howner', hdepth'⟩ := exists_returned
      (s := { s with guard := { s.guard with
        depth := s.guard.depth + 1
        reentries := s.guard.reentries + 1 } }.start () .enterDeepest) (stage_start ..)
    refine ⟨_, s', ((((hr.snoc h₁).snoc h₂).snoc h₃).snoc h₄).snoc h₅, hidle',
      hn'.trans (congrArg (· + 1) hn), hmu'.trans hmu, howner'.trans howner, ?_⟩
    rw [hdepth']
    change (s.guard.depth + 1).toNat = _
    rw [UInt32.toNat_add, hdepth]
    exact Nat.mod_add_mod ..

theorem not_call_guard_sound : ¬∀ (as : List (Action Unit)) (s : GuardSystem Unit), Reaches as s → s.Sound := by
  intro h
  obtain ⟨as, s, hr, hidle, hn, hmu, howner, hdepth⟩ := exists_nested (2 ^ 32 - 1)
  have hsound := h as s hr
  have hd := hsound.depth () hidle (by rw [hn]; exact Nat.succ_pos _)
  rw [hdepth, hn] at hd
  exact absurd hd (by decide)

end GuardSystem

end PerfAgent.Shim
