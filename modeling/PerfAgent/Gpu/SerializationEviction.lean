import PerfAgent.Lib.Machine
import PerfAgent.Gpu.Serialization

/-!
# What evicting evidence does to the disclosure

The store keeps a bounded number of windows per process and drops the oldest.  Here
the bounded history `B` is compared with the history `U` that drops nothing, both fed
the same records: `Simulates` says that `U` holds the windows `gone` in front of those
of `B`, and that the coverage of `B` starts no earlier.

An evicted window still speaks about time the bounded history covers when it never
closed, or when it reaches past the start of the oldest window left.  `Spent` excludes
exactly that; without it the comparison fails.
-/

namespace PerfAgent.Gpu

variable {wins bs : List SamplingWindow} (nw : SamplingWindow)

open List AssocMap

namespace WindowSet

def dropped (maxPerPID : Nat) (set : WindowSet) (w : GPUSamplingWindow) : List SamplingWindow :=
  match supersede (ofRecord w) set.wins with
  | some _ => []
  | none =>
    (append (ofRecord w) set.wins).take ((append (ofRecord w) set.wins).length - maxPerPID)

def kept (maxPerPID : Nat) (set : WindowSet) (w : GPUSamplingWindow) : List SamplingWindow :=
  (append (ofRecord w) set.wins).drop ((append (ofRecord w) set.wins).length - maxPerPID)

/-- The window says nothing about the time the kept windows cover: it is closed, and
nothing was serialized in it or it ended before the kept windows begin. -/
def Spent (v : SamplingWindow) (kept : List SamplingWindow) : Prop :=
  v.isOpen = false ∧ ((v.proves = false ∧ v.ambiguous = false) ∨ ∀ b ∈ kept, v.endNs < b.startNs)

instance (v : SamplingWindow) (kept : List SamplingWindow) : Decidable (Spent v kept) :=
  inferInstanceAs (Decidable (_ ∧ _))

/-! ## One record, after the coverage restart -/

theorem supersedeBackwards_append (l l' : List SamplingWindow) : supersedeBackwards nw (l ++ l') =
      match supersedeBackwards nw l with
      | some ws => some (ws ++ l')
      | none => (supersedeBackwards nw l').map (l ++ ·) := by
  induction l with
  | nil => simp [supersedeBackwards]
  | cons w l ih =>
    simp only [cons_append, supersedeBackwards]
    split_ifs
    · rw [ih]
      cases supersedeBackwards nw l with
      | none => cases supersedeBackwards nw l' <;> simp
      | some ws => simp
    · simp

theorem supersede_append (l l' : List SamplingWindow) : supersede nw (l ++ l') =
      match supersede nw l' with
      | some ws => some (l ++ ws)
      | none => (supersede nw l).map (· ++ l') := by
  unfold supersede
  rw [reverse_append, supersedeBackwards_append]
  cases supersedeBackwards nw l'.reverse with
  | none => cases supersedeBackwards nw l.reverse <;> simp
  | some ws => simp

theorem supersede_of_closed {nw : SamplingWindow} {l l' : List SamplingWindow}
    (hc : ∀ w ∈ l, w.isOpen = false) (h : supersede nw l = some l') : l' = l := by
  obtain ⟨pre, w, post, rfl, -, rfl⟩ := supersede_eq_some h
  have hw : w.isOpen = false := hc w (by simp)
  simp [keep, hw]

theorem wins_restart (set : WindowSet) (w : GPUSamplingWindow) : (set.restart w).wins = set.wins := by
  unfold restart
  split <;> rfl

theorem evict_eq_of_lt {maxPerPID : Nat} {set : WindowSet} (h : maxPerPID < set.wins.length) {b : SamplingWindow}
    (hb : set.wins.drop (set.wins.length - maxPerPID) = b :: bs) :
    set.evict maxPerPID = { set with wins := b :: bs, coverageStartNs := max set.coverageStartNs b.startNs } := by
  unfold evict
  rw [if_pos h, hb]
  simp only [WindowSet.mk.injEq, true_and, and_true]
  split <;> omega

theorem evict_eq_self {maxPerPID : Nat} {set : WindowSet} (h : set.wins.length ≤ maxPerPID) :
    set.evict maxPerPID = set := if_neg (Nat.not_lt.mpr h)

theorem add_of_supersede {maxPerPID : Nat} {set : WindowSet} {w : GPUSamplingWindow}
    (h : supersede (ofRecord w) set.wins = some wins) :
    (set.add maxPerPID w).1 = { set.restart w with wins := wins } := by
  simp only [add, wins_restart, h]

theorem add_of_append {maxPerPID : Nat} {set : WindowSet} {w : GPUSamplingWindow}
    (h : supersede (ofRecord w) set.wins = none) :
    (set.add maxPerPID w).1 = ({ set.restart w with wins := append (ofRecord w) set.wins }).evict maxPerPID := by
  simp only [add, wins_restart, h]

theorem wins_add_of_append {maxPerPID : Nat} {set : WindowSet} {w : GPUSamplingWindow}
    (h : supersede (ofRecord w) set.wins = none) :
    (set.add maxPerPID w).1.wins = set.kept maxPerPID w := by
  rw [add_of_append h, evict, kept]
  split
  · rfl
  · next hle => rw [Nat.sub_eq_zero_of_le (Nat.not_lt.mp hle), drop_zero]

theorem length_append (wins : List SamplingWindow) : (append nw wins).length = wins.length + 1 := by
  simpa using (append_perm nw wins).length_eq

theorem add_room {maxPerPID : Nat} {set : WindowSet} {w : GPUSamplingWindow}
    (h : supersede (ofRecord w) set.wins = none) (hle : set.wins.length + 1 ≤ maxPerPID) :
    (set.add maxPerPID w).1 = { set.restart w with wins := append (ofRecord w) set.wins } ∧
      dropped maxPerPID set w = [] := by
  constructor
  · rw [add_of_append h]
    exact evict_eq_self ((length_append _ _).trans_le hle)
  · simp only [dropped, h, length_append, Nat.sub_eq_zero_of_le hle, take_zero]

theorem add_full {maxPerPID : Nat} {set : WindowSet} {w : GPUSamplingWindow}
    (h : supersede (ofRecord w) set.wins = none) (hfull : set.wins.length = maxPerPID) {a b : SamplingWindow}
    (ha : append (ofRecord w) set.wins = a :: b :: bs) :
    (set.add maxPerPID w).1 = { set.restart w with
      wins := b :: bs, coverageStartNs := max (set.restart w).coverageStartNs b.startNs } ∧
      dropped maxPerPID set w = [a] := by
  have hone : (append (ofRecord w) set.wins).length - maxPerPID = 1 := by
    rw [length_append]
    omega
  constructor
  · rw [add_of_append h]
    refine evict_eq_of_lt (by change maxPerPID < (append _ _).length; omega) ?_
    change (append _ _).drop ((append _ _).length - maxPerPID) = _
    rw [hone, ha]
    rfl
  · simp only [dropped, h]
    rw [hone, ha]
    rfl

/-! ## The simulation -/

/-- The unbounded history `U` holds the windows `gone` in front of those of `B`. -/
structure Simulates (maxPerPID : Nat) (B U : WindowSet) (gone : List SamplingWindow) : Prop where
  wins : U.wins = gone ++ B.wins
  ordered : StartOrdered U.wins
  have_eq : B.haveCoverage = U.haveCoverage
  length_le : B.wins.length ≤ maxPerPID
  full : gone ≠ [] → B.wins.length = maxPerPID
  start_eq : gone = [] → B.coverageStartNs = U.coverageStartNs
  start_max : gone ≠ [] → ∃ b bs, B.wins = b :: bs ∧ B.coverageStartNs = max U.coverageStartNs b.startNs
  spent : ∀ v ∈ gone, Spent v B.wins

theorem simulates_empty (maxPerPID : Nat) : Simulates maxPerPID {} {} [] where
  wins := rfl
  ordered := List.Pairwise.nil
  have_eq := rfl
  length_le := Nat.zero_le _
  full := fun h => absurd rfl h
  start_eq := fun _ => rfl
  start_max := fun h => absurd rfl h
  spent := by simp

theorem Simulates.restart {maxPerPID : Nat} {B U : WindowSet} {gone : List SamplingWindow}
    (h : Simulates maxPerPID B U gone) (w : GPUSamplingWindow) :
    (B.restart w).haveCoverage = (U.restart w).haveCoverage ∧
    ((B.restart w).coverageStartNs = w.startNs ∧ (U.restart w).coverageStartNs = w.startNs ∨
      (B.restart w).coverageStartNs = B.coverageStartNs ∧ (U.restart w).coverageStartNs = U.coverageStartNs) := by
  unfold WindowSet.restart
  rw [h.have_eq]
  split
  · exact ⟨rfl, .inl ⟨rfl, rfl⟩⟩
  · exact ⟨h.have_eq, .inr ⟨rfl, rfl⟩⟩

theorem Spent.congr {v : SamplingWindow} {kept kept' : List SamplingWindow} (hv : Spent v kept)
    (h : kept'.map SamplingWindow.startNs = kept.map SamplingWindow.startNs) : Spent v kept' := by
  refine ⟨hv.1, hv.2.imp_right fun hlt => ?_⟩
  have hall : ∀ t ∈ kept.map SamplingWindow.startNs, v.endNs < t := by simpa using hlt
  rw [← h] at hall
  simpa using hall

theorem StartOrdered.congr {l l' : List SamplingWindow} (hl : StartOrdered l)
    (h : l'.map SamplingWindow.startNs = l.map SamplingWindow.startNs) : StartOrdered l' := by
  unfold StartOrdered at hl ⊢
  rw [← pairwise_map (R := (· < ·)) (f := SamplingWindow.startNs)] at hl ⊢
  rwa [h]

section Step

variable {maxPerPID : Nat} {B U : WindowSet} {gone : List SamplingWindow}

theorem Simulates.add_of_held (h : Simulates maxPerPID B U gone) {w : GPUSamplingWindow}
    (hs : supersede (ofRecord w) B.wins = some wins) (n : Nat) :
    Simulates maxPerPID (B.add maxPerPID w).1 (U.add n w).1 gone := by
  have hU : supersede (ofRecord w) U.wins = some (gone ++ wins) := by
    rw [h.wins, supersede_append, hs]
  have hstarts := map_startNs_supersede hs
  have hlen : wins.length = B.wins.length := by
    simpa using congrArg List.length hstarts
  obtain ⟨hhave, hcov⟩ := h.restart w
  rw [add_of_supersede hs, add_of_supersede hU]
  refine ⟨rfl, h.ordered.congr (map_startNs_supersede hU), hhave, hlen.trans_le h.length_le,
    fun hg => hlen.trans (h.full hg), fun hg => ?_, fun hg => ?_, fun v hv => (h.spent v hv).congr hstarts⟩
  · rcases hcov with ⟨hb, hu⟩ | ⟨hb, hu⟩
    · exact hb.trans hu.symm
    · exact hb.trans ((h.start_eq hg).trans hu.symm)
  · obtain ⟨b, bs, hwins, hmax⟩ := h.start_max hg
    obtain ⟨pre, v, post, hsplit, hv, rfl⟩ := supersede_eq_some hs
    -- the first start is unchanged, and the record's start is not before it
    obtain ⟨b', bs', hb', hfirst⟩ : ∃ b' bs', pre ++ keep v (ofRecord w) :: post = b' :: bs' ∧
        b'.startNs = b.startNs := by
      rw [hwins] at hstarts
      cases hl : pre ++ keep v (ofRecord w) :: post with
      | nil => simp at hl
      | cons b' bs' =>
        rw [hl, map_cons, map_cons] at hstarts
        exact ⟨b', bs', rfl, (List.cons.inj hstarts).1⟩
    have hge : b.startNs ≤ w.startNs := by
      have hord : StartOrdered (b :: bs) := by
        rw [← hwins]
        exact (pairwise_append.mp (h.wins ▸ h.ordered)).2.1
      have hmem : v ∈ b :: bs := by
        rw [← hwins, hsplit]
        simp
      rcases mem_cons.mp hmem with rfl | hmem
      · exact hv.le
      · exact (rel_of_pairwise_cons hord hmem).le.trans hv.le
    refine ⟨b', bs', hb', ?_⟩
    rcases hcov with ⟨hb, hu⟩ | ⟨hb, hu⟩
    · change (B.restart w).coverageStartNs = max (U.restart w).coverageStartNs _
      omega
    · change (B.restart w).coverageStartNs = max (U.restart w).coverageStartNs _
      omega

/-- A record that is older than everything the bounded history holds, when that is
full: the record is dropped at once. -/
theorem Simulates.add_of_older (h : Simulates maxPerPID B U gone) (hg : gone ≠ [])
    {w : GPUSamplingWindow} (hs : supersede (ofRecord w) B.wins = none)
    (hlt : ∀ b ∈ B.wins, w.startNs < b.startNs) {U' : WindowSet} {gone' : List SamplingWindow}
    (hg' : gone' ≠ []) (hwins : U'.wins = gone' ++ B.wins) (hord : StartOrdered U'.wins)
    (hhave : U'.haveCoverage = (U.restart w).haveCoverage)
    (hstart : U'.coverageStartNs = (U.restart w).coverageStartNs)
    (hspent : ∀ v ∈ gone', Spent v B.wins) :
    Simulates maxPerPID (B.add maxPerPID w).1 U' gone' := by
  obtain ⟨hhave', hcov⟩ := h.restart w
  obtain ⟨b, bs, hb, hmax⟩ := h.start_max hg
  have hfull := h.full hg
  have happ : append (ofRecord w) B.wins = ofRecord w :: B.wins :=
    @append_eq (ofRecord w) [] _ (pairwise_append.mp (h.wins ▸ h.ordered)).2.1 (by simp) hlt
  rw [(add_full hs hfull (happ.trans (by rw [hb]))).1, ← hb]
  refine ⟨hwins, hord, hhave'.trans hhave.symm, h.length_le, fun _ => hfull,
    fun hn => absurd hn hg', fun _ => ⟨b, bs, hb, ?_⟩, hspent⟩
  change max _ _ = max _ _
  rcases hcov with ⟨hB, hU⟩ | ⟨hB, hU⟩
  · omega
  · omega

theorem oldest_of_place {nw b₀ a : SamplingWindow} {bs₀ as : List SamplingWindow} (hb : wins = b₀ :: bs₀)
    (hord : StartOrdered wins) (hno : ∀ b ∈ wins, b.startNs ≠ nw.startNs) (hplace : ∃ b ∈ wins, b.startNs < nw.startNs)
    (ha : append nw wins = a :: as) : a = b₀ := by
  obtain ⟨pre, post, hsplit, hpre, hpost⟩ := hord.split hno
  obtain ⟨b', hb', hlt⟩ := hplace
  rw [hsplit, append_eq (hsplit ▸ hord) hpre hpost] at ha
  cases pre with
  | nil =>
    have := hpost b' (by simpa [hsplit] using hb')
    omega
  | cons p pre =>
    rw [hb] at hsplit
    rw [(List.cons.inj hsplit).1]
    exact (List.cons.inj ha).1.symm

theorem Simulates.add_of_new (h : Simulates maxPerPID B U gone) (hpos : 0 < maxPerPID)
    {w : GPUSamplingWindow} (hs : supersede (ofRecord w) B.wins = none)
    (hgone : ∀ v ∈ gone, v.startNs < w.startNs)
    (hplace : gone ≠ [] → ∃ b ∈ B.wins, b.startNs < w.startNs)
    {n : Nat} (hn : U.wins.length < n)
    (hspent : ∀ v ∈ dropped maxPerPID B w, Spent v (B.add maxPerPID w).1.wins) :
    Simulates maxPerPID (B.add maxPerPID w).1 (U.add n w).1 (gone ++ dropped maxPerPID B w) := by
  obtain ⟨hhave, hcov⟩ := h.restart w
  have hordB : StartOrdered B.wins := (pairwise_append.mp (h.wins ▸ h.ordered)).2.1
  have hnoB : ∀ b ∈ B.wins, b.startNs ≠ (ofRecord w).startNs := supersede_eq_none.mp hs
  have hsU : supersede (ofRecord w) U.wins = none := by
    refine supersede_eq_none.mpr fun v hv => ?_
    rcases mem_append.mp (h.wins ▸ hv) with hv | hv
    · exact Nat.ne_of_lt (hgone v hv)
    · exact hnoB v hv
  obtain ⟨pre, post, hsplit, hpre, hpost⟩ := hordB.split hnoB
  have happB : append (ofRecord w) B.wins = pre ++ ofRecord w :: post := by
    rw [hsplit]
    exact append_eq (hsplit ▸ hordB) hpre hpost
  have happU : append (ofRecord w) U.wins = gone ++ append (ofRecord w) B.wins := by
    rw [happB, h.wins, hsplit, ← append_assoc, ← append_assoc]
    refine append_eq ?_ ?_ hpost
    · have := h.ordered
      rwa [h.wins, hsplit, ← append_assoc] at this
    · intro v hv
      rcases mem_append.mp hv with hv | hv
      · exact hgone v hv
      · exact hpre v hv
  have hordU : StartOrdered (append (ofRecord w) U.wins) :=
    append_startOrdered h.ordered (supersede_eq_none.mp hsU)
  have haddU : (U.add n w).1 = { U.restart w with wins := append (ofRecord w) U.wins } :=
    (add_room hsU hn).1
  by_cases hle : B.wins.length + 1 ≤ maxPerPID
  · -- nothing is dropped, and nothing was before
    have hg : gone = [] := by
      by_contra hne
      have := h.full hne
      omega
    obtain ⟨haddB, hdrop⟩ := add_room hs hle
    rw [hdrop, hg, haddB, haddU]
    rw [hg, nil_append] at happU
    refine ⟨happU, hordU, hhave, (length_append _ _).trans_le hle, fun hn => absurd rfl hn,
      fun _ => ?_, fun hn => absurd rfl hn, by simp⟩
    rcases hcov with ⟨hb, hu⟩ | ⟨hb, hu⟩
    · exact hb.trans hu.symm
    · exact hb.trans ((h.start_eq hg).trans hu.symm)
  · have hfull : B.wins.length = maxPerPID := by
      have := h.length_le
      omega
    obtain ⟨a, b, bs, ha⟩ : ∃ a b bs, append (ofRecord w) B.wins = a :: b :: bs := by
      have hlen := length_append (ofRecord w) B.wins
      match hl : append (ofRecord w) B.wins with
      | [] => simp [hl] at hlen
      | [_] =>
        rw [hl] at hlen
        simp only [length_singleton] at hlen
        omega
      | a :: b :: bs => exact ⟨a, b, bs, rfl⟩
    have hlen : (b :: bs).length = maxPerPID := by
      have := length_append (ofRecord w) B.wins
      rw [ha, length_cons] at this
      omega
    obtain ⟨haddB, hdrop⟩ := add_full hs hfull ha
    rw [hdrop, haddB] at hspent
    rw [hdrop, haddB, haddU]
    rw [ha] at happU
    refine ⟨by change append _ _ = _; simp [happU], hordU, hhave, hlen.le, fun _ => hlen,
      fun hn => absurd hn (by simp), fun _ => ⟨b, bs, rfl, ?_⟩, fun v hv => ?_⟩
    · change max (B.restart w).coverageStartNs _ = max (U.restart w).coverageStartNs _
      rcases hcov with ⟨hB', hU'⟩ | ⟨hB', hU'⟩
      · rw [hB', hU']
      · by_cases hg : gone = []
        · rw [hB', hU', h.start_eq hg]
        · obtain ⟨b₀, bs₀, hb₀, hmax⟩ := h.start_max hg
          have hab : a.startNs < b.startNs := by
            have := append_startOrdered hordB hnoB
            rw [ha] at this
            exact rel_of_pairwise_cons this mem_cons_self
          -- the window that went is the one that was oldest
          have haeq : a = b₀ := oldest_of_place hb₀ hordB hnoB (hplace hg) ha
          rw [hB', hU', hmax, ← haeq]
          omega
    · rcases mem_append.mp hv with hv | hv
      · obtain ⟨b', hb', hlt⟩ := hplace (ne_nil_of_mem hv)
        refine ⟨(h.spent v hv).1, (h.spent v hv).2.imp_right fun hall x hx => ?_⟩
        have hx' : x ∈ B.wins ++ [ofRecord w] := by
          refine (append_perm _ _).subset ?_
          rw [ha]
          exact mem_cons_of_mem _ hx
        rcases mem_append.mp hx' with hx' | hx'
        · exact hall x hx'
        · rw [mem_singleton.mp hx']
          exact (hall b' hb').trans hlt
      · exact hspent v hv

theorem Simulates.add (h : Simulates maxPerPID B U gone) (hpos : 0 < maxPerPID)
    (w : GPUSamplingWindow) {n : Nat} (hn : U.wins.length < n)
    (hspent : ∀ v ∈ dropped maxPerPID B w, Spent v (kept maxPerPID B w)) :
    ∃ gone', Simulates maxPerPID (B.add maxPerPID w).1 (U.add n w).1 gone' := by
  cases hs : supersede (ofRecord w) B.wins with
  | some wins => exact ⟨gone, h.add_of_held hs n⟩
  | none =>
    obtain ⟨hordG, hordB, hlt⟩ := pairwise_append.mp (h.wins ▸ h.ordered)
    have hnoB : ∀ b ∈ B.wins, b.startNs ≠ w.startNs := supersede_eq_none.mp hs
    rw [← wins_add_of_append hs] at hspent
    cases hsg : supersede (ofRecord w) gone with
    | some gone' =>
      -- the record of a burst that has gone: the unbounded history has closed it
      obtain rfl := supersede_of_closed (fun v hv => (h.spent v hv).1) hsg
      have hU : supersede (ofRecord w) U.wins = some (gone' ++ B.wins) := by
        rw [h.wins, supersede_append, hs, hsg]
        rfl
      obtain ⟨pre, v, post, hsplit, hv, -⟩ := supersede_eq_some hsg
      have hmem : v ∈ gone' := hsplit ▸ by simp
      have hne : gone' ≠ [] := ne_nil_of_mem hmem
      refine ⟨gone', h.add_of_older hne hs (fun b hb => ?_) hne ?_ ?_ ?_ ?_ h.spent⟩
      · exact (hv ▸ hlt v hmem b hb : (ofRecord w).startNs < b.startNs)
      all_goals rw [add_of_supersede hU]
      exact h.wins ▸ h.ordered
    | none =>
      have hnoG : ∀ v ∈ gone, v.startNs ≠ w.startNs := supersede_eq_none.mp hsg
      by_cases hplace : gone ≠ [] → ∃ b ∈ B.wins, b.startNs < w.startNs
      · refine ⟨_, h.add_of_new hpos hs (fun v hv => ?_) hplace hn hspent⟩
        obtain ⟨b, hb, hbw⟩ := hplace (ne_nil_of_mem hv)
        exact (hlt v hv b hb).trans hbw
      · -- older than everything held: it goes straight to the windows that are gone
        push Not at hplace
        obtain ⟨hg, hall⟩ := hplace
        have hold : ∀ b ∈ B.wins, w.startNs < b.startNs := fun b hb =>
          Nat.lt_of_le_of_ne (hall b hb) (Ne.symm (hnoB b hb))
        obtain ⟨pre, post, hsplit, hpre, hpost⟩ := StartOrdered.split hordG hnoG
        have hU : supersede (ofRecord w) U.wins = none := by
          rw [h.wins, supersede_append, hs, hsg]
          rfl
        have happ : append (ofRecord w) U.wins = (pre ++ ofRecord w :: post) ++ B.wins := by
          rw [h.wins, hsplit, append_assoc, append_assoc, cons_append]
          refine append_eq ?_ hpre fun v hv => ?_
          · rw [← append_assoc, ← hsplit]
            exact h.wins ▸ h.ordered
          · rcases mem_append.mp hv with hv | hv
            · exact hpost v hv
            · exact hold v hv
        have hnew : Spent (ofRecord w) B.wins := by
          obtain ⟨b, bs, hb, -⟩ := h.start_max hg
          have happB : append (ofRecord w) B.wins = ofRecord w :: b :: bs := by
            rw [← hb]
            exact @append_eq (ofRecord w) [] _ hordB (by simp) hold
          obtain ⟨hadd, hdrop⟩ := add_full hs (h.full hg) happB
          rw [hdrop, hadd] at hspent
          rw [hb]
          exact hspent _ (mem_singleton_self _)
        refine ⟨pre ++ ofRecord w :: post, h.add_of_older hg hs hold (by simp) ?_ ?_ ?_ ?_ ?_⟩
        · rw [(add_room hU hn).1]
          exact happ
        · rw [(add_room hU hn).1]
          exact append_startOrdered h.ordered (supersede_eq_none.mp hU)
        · rw [(add_room hU hn).1]
        · rw [(add_room hU hn).1]
        · intro v hv
          rcases mem_append.mp hv with hv | hv
          · exact h.spent v (hsplit ▸ mem_append_left _ hv)
          · rcases mem_cons.mp hv with rfl | hv
            · exact hnew
            · exact h.spent v (hsplit ▸ mem_append_right _ hv)

theorem length_wins_add_le (set : WindowSet) (n : Nat) (w : GPUSamplingWindow) :
    (set.add n w).1.wins.length ≤ set.wins.length + 1 := by
  cases hs : supersede (ofRecord w) set.wins with
  | some wins =>
    rw [add_of_supersede hs]
    have := congrArg List.length (map_startNs_supersede hs)
    simp only [length_map] at this
    exact this.le.trans (Nat.le_succ _)
  | none =>
    rw [wins_add_of_append hs, kept, length_drop, length_append]
    omega

theorem Simulates.coverageEnd_le (h : Simulates maxPerPID B U gone) {c : Nat}
    (hc : coverageEndFrom B.coverageStartNs B.wins none = some c) :
    ∃ c', coverageEndFrom U.coverageStartNs U.wins none = some c' ∧ c ≤ c' := by
  rw [h.wins]
  by_cases hg : gone = []
  · rw [hg, nil_append, ← h.start_eq hg]
    exact ⟨c, hc, Nat.le_refl c⟩
  · obtain ⟨b, bs, hb, hmax⟩ := h.start_max hg
    obtain ⟨-, hordB, hlt⟩ := pairwise_append.mp (h.wins ▸ h.ordered)
    have hfirst : ∀ x ∈ B.wins, b.startNs ≤ x.startNs := by
      intro x hx
      rw [hb] at hx hordB
      rcases mem_cons.mp hx with rfl | hx
      · exact Nat.le_refl _
      · exact (rel_of_pairwise_cons hordB hx).le
    by_cases hle : b.startNs ≤ U.coverageStartNs
    · rw [coverageEndFrom_skip fun v hv => (hlt v hv b (by simp [hb])).trans_le hle]
      exact ⟨c, by rw [← hc, hmax, Nat.max_eq_left hle], Nat.le_refl c⟩
    · obtain ⟨acc, -, heq⟩ := coverageEndFrom_append U.coverageStartNs
        (fun v hv => (h.spent v hv).1) B.wins none
      rw [heq]
      refine @coverageEndFrom_mono _ _ none acc (by simp) _ ?_
      rw [← hc, hmax]
      refine coverageEndFrom_congr (fun x hx => ?_) none
      have := hfirst x hx
      omega

theorem Simulates.classify (h : Simulates maxPerPID B U gone) {s e : Nat}
    (hk : B.classify s e ≠ .unknown) : U.classify s e = B.classify s e := by
  cases hB : B.classify s e with
  | unknown => exact absurd hB hk
  | serialized =>
    obtain ⟨hse, hhave, w, hw, hi, hp⟩ := classify_eq_serialized.mp hB
    refine classify_eq_serialized.mpr ⟨hse, h.have_eq ▸ hhave, w, ?_, hi, hp⟩
    rw [h.wins]
    exact mem_append_right _ hw
  | notSerialized =>
    obtain ⟨hse, hhave, hall, hstart, c, hc, hle⟩ := classify_eq_notSerialized.mp hB
    have hhaveU : U.haveCoverage = true := h.have_eq ▸ hhave
    rw [coverageEndNs_eq hhave] at hc
    obtain ⟨c', hc', hcc⟩ := h.coverageEnd_le hc
    refine classify_eq_notSerialized.mpr ⟨hse, hhaveU, fun w hw hi => ?_, ?_, c', ?_, hle.trans hcc⟩
    · rcases mem_append.mp (h.wins ▸ hw) with hw | hw
      · rcases (h.spent w hw).2 with hq | hend
        · exact hq
        · -- a spent window ends before the coverage starts
          obtain ⟨b, bs, hb, hmax⟩ := h.start_max (ne_nil_of_mem hw)
          have hlt := hend b (by simp [hb])
          rcases (SamplingWindow.intersects_iff.mp hi).2 with ho | hle
          · rw [(h.spent w hw).1] at ho
            cases ho
          · omega
      · exact hall w hw hi
    · by_cases hg : gone = []
      · rw [← h.start_eq hg]
        exact hstart
      · obtain ⟨b, bs, -, hmax⟩ := h.start_max hg
        omega
    · rw [coverageEndNs_eq hhaveU, hc']

end Step

end WindowSet

/-! ## Runs of the store -/

namespace WindowStore

open WindowSet

/-- The windows this record drops, if it is taken at all, are spent. -/
def EvictsSpent (s : WindowStore) (w : GPUSamplingWindow) : Prop :=
  (w.endNs ≠ 0 ∧ w.endNs < w.startNs) ∨
    ∀ set ∈ s.setFor w.pid, ∀ v ∈ set.dropped s.maxPerPID w, Spent v (set.kept s.maxPerPID w)

instance (s : WindowStore) (w : GPUSamplingWindow) : Decidable (s.EvictsSpent w) :=
  inferInstanceAs (Decidable (_ ∨ _))

/-- The two stores hold the same processes, each bounded history simulated by the
unbounded one, which holds at most `n` windows. -/
structure Simulates (n : Nat) (B U : WindowStore) : Prop where
  maxPIDs : U.maxPIDs = B.maxPIDs
  size : U.byPID.size = B.byPID.size
  sets : ∀ pid, (B.byPID.find? pid = none ∧ U.byPID.find? pid = none) ∨
    ∃ b u gone, B.byPID.find? pid = some b ∧ U.byPID.find? pid = some u ∧
      u.wins.length ≤ n ∧ WindowSet.Simulates B.maxPerPID b u gone

theorem Simulates.setFor {n : Nat} {B U : WindowStore} (h : Simulates n B U) (pid : Nat) :
    (B.setFor pid = none ∧ U.setFor pid = none) ∨
    ∃ b u gone, B.setFor pid = some b ∧ U.setFor pid = some u ∧
      u.wins.length ≤ n ∧ WindowSet.Simulates B.maxPerPID b u gone := by
  unfold WindowStore.setFor
  rcases h.sets pid with ⟨hb, hu⟩ | ⟨b, u, gone, hb, hu, hle, hsim⟩
  · rw [hb, hu, h.size, h.maxPIDs]
    by_cases hfull : B.byPID.size ≥ B.maxPIDs
    · exact .inl ⟨if_pos hfull, if_pos hfull⟩
    · exact .inr ⟨{}, {}, [], if_neg hfull, if_neg hfull, Nat.zero_le _, simulates_empty _⟩
  · rw [hb, hu]
    exact .inr ⟨b, u, gone, rfl, rfl, hle, hsim⟩

theorem add_of_setFor {s : WindowStore} {w : GPUSamplingWindow} {set : WindowSet}
    (hinv : ¬(w.endNs ≠ 0 ∧ w.endNs < w.startNs)) (h : s.setFor w.pid = some set) :
    (s.add w).byPID = s.byPID.put w.pid (set.add s.maxPerPID w).1 ∧
      (s.add w).maxPerPID = s.maxPerPID ∧ (s.add w).maxPIDs = s.maxPIDs := by
  unfold add
  rw [if_neg hinv, h]
  exact ⟨rfl, rfl, rfl⟩

theorem add_of_refused {s : WindowStore} {w : GPUSamplingWindow}
    (h : (w.endNs ≠ 0 ∧ w.endNs < w.startNs) ∨ s.setFor w.pid = none) :
    (s.add w).byPID = s.byPID ∧ (s.add w).maxPerPID = s.maxPerPID ∧ (s.add w).maxPIDs = s.maxPIDs := by
  unfold add
  by_cases hinv : w.endNs ≠ 0 ∧ w.endNs < w.startNs
  · rw [if_pos hinv]
    exact ⟨rfl, rfl, rfl⟩
  · rw [if_neg hinv, h.resolve_left hinv]
    exact ⟨rfl, rfl, rfl⟩

theorem Simulates.add {n : Nat} {B U : WindowStore} (h : Simulates n B U)
    (hpos : 0 < B.maxPerPID) (hroom : n < U.maxPerPID) {w : GPUSamplingWindow}
    (hspent : B.EvictsSpent w) : Simulates (n + 1) (B.add w) (U.add w) := by
  have hgrow : ∀ pid, (B.byPID.find? pid = none ∧ U.byPID.find? pid = none) ∨
      ∃ b u gone, B.byPID.find? pid = some b ∧ U.byPID.find? pid = some u ∧
        u.wins.length ≤ n + 1 ∧ WindowSet.Simulates B.maxPerPID b u gone := fun pid =>
    (h.sets pid).imp_right fun ⟨b, u, gone, hb, hu, hle, hsim⟩ =>
      ⟨b, u, gone, hb, hu, Nat.le_succ_of_le hle, hsim⟩
  by_cases hinv : w.endNs ≠ 0 ∧ w.endNs < w.startNs
  · obtain ⟨hb, hm, hp⟩ := add_of_refused (s := B) (.inl hinv)
    obtain ⟨hu, -, hp'⟩ := add_of_refused (s := U) (.inl hinv)
    exact ⟨by rw [hp, hp', h.maxPIDs], by rw [hb, hu, h.size], by rw [hb, hu, hm]; exact hgrow⟩
  · rcases h.setFor w.pid with ⟨hsb, hsu⟩ | ⟨b, u, gone, hsb, hsu, hle, hsim⟩
    · obtain ⟨hb, hm, hp⟩ := add_of_refused (s := B) (.inr hsb)
      obtain ⟨hu, -, hp'⟩ := add_of_refused (s := U) (.inr hsu)
      exact ⟨by rw [hp, hp', h.maxPIDs], by rw [hb, hu, h.size], by rw [hb, hu, hm]; exact hgrow⟩
    · obtain ⟨hb, hm, hp⟩ := add_of_setFor hinv hsb
      obtain ⟨hu, -, hp'⟩ := add_of_setFor hinv hsu
      obtain ⟨gone', hsim'⟩ := hsim.add hpos w (hle.trans_lt hroom) (hspent.resolve_left hinv b hsb)
      refine ⟨by rw [hp, hp', h.maxPIDs], ?_, fun pid => ?_⟩
      · rw [hb, hu]
        rcases h.sets w.pid with ⟨hn, hn'⟩ | ⟨b', u', -, hf, hf', -⟩
        · rw [size_put_of_find?_eq_none hn, size_put_of_find?_eq_none hn', h.size]
        · rw [size_put_of_find? hf, size_put_of_find? hf', h.size]
      · rw [hb, hu, hm, find?_put, find?_put]
        split_ifs with hpid
        · exact .inr ⟨_, _, gone', rfl, rfl,
            (length_wins_add_le u _ w).trans (Nat.succ_le_succ hle), hsim'⟩
        · exact hgrow pid

theorem run_snoc (s : WindowStore) (ws : List GPUSamplingWindow) (w : GPUSamplingWindow) :
    s.run (ws ++ [w]) = (s.run ws).add w := by
  simp [run]

theorem maxPerPID_add (s : WindowStore) (w : GPUSamplingWindow) : (s.add w).maxPerPID = s.maxPerPID := by
  by_cases hinv : w.endNs ≠ 0 ∧ w.endNs < w.startNs
  · exact (add_of_refused (.inl hinv)).2.1
  · cases hs : s.setFor w.pid with
    | none => exact (add_of_refused (.inr hs)).2.1
    | some set => exact (add_of_setFor hinv hs).2.1

theorem maxPerPID_run (s : WindowStore) (ws : List GPUSamplingWindow) : (s.run ws).maxPerPID = s.maxPerPID := by
  induction ws using List.reverseRecOn with
  | nil => rfl
  | append_singleton ws w ih => rw [run_snoc, maxPerPID_add, ih]

theorem simulates_run {B U : WindowStore} (hB : B.byPID = ∅) (hU : U.byPID = ∅)
    (hpids : U.maxPIDs = B.maxPIDs) (hpos : 0 < B.maxPerPID) : ∀ {ws : List GPUSamplingWindow},
    ws.length ≤ U.maxPerPID → Along add EvictsSpent B ws →
    Simulates ws.length (B.run ws) (U.run ws) := by
  intro ws
  induction ws using List.reverseRecOn with
  | nil =>
    refine fun _ _ => ⟨hpids, ?_, fun pid => .inl ⟨?_, ?_⟩⟩
    · rw [run, run, foldl_nil, foldl_nil, hB, hU]
    · rw [run, foldl_nil, hB]; rfl
    · rw [run, foldl_nil, hU]; rfl
  | append_singleton ws w ih =>
    intro hn hspent
    rw [List.length_append, length_singleton] at hn
    obtain ⟨hws, hw, -⟩ := along_append.mp hspent
    have hsim := ih (Nat.le_of_succ_le hn) hws
    rw [run_snoc, run_snoc, List.length_append, length_singleton]
    refine hsim.add ?_ ?_ hw
    · rwa [maxPerPID_run]
    · rwa [maxPerPID_run]

/-- In every run in which only spent windows are evicted, a known verdict of the
bounded store is the verdict of the store that has room for every record. -/
theorem eviction_only_degrades (maxPerPID maxPIDs n : Int) (ws : List GPUSamplingWindow) (hn : (ws.length : Int) ≤ n)
    (hspent : Along add EvictsSpent (newWindowStore maxPerPID maxPIDs) ws) (pid s e : Nat)
    (hknown : ((newWindowStore maxPerPID maxPIDs).run ws).classify pid s e ≠ .unknown) :
    ((newWindowStore n maxPIDs).run ws).classify pid s e =
      ((newWindowStore maxPerPID maxPIDs).run ws).classify pid s e := by
  have hpos : 0 < (newWindowStore maxPerPID maxPIDs).maxPerPID := by
    simp only [newWindowStore]
    split_ifs
    · decide
    · omega
  have hroom : ws.length ≤ (newWindowStore n maxPIDs).maxPerPID := by
    simp only [newWindowStore]
    split_ifs
    · omega
    · omega
  have hsim := simulates_run (B := newWindowStore maxPerPID maxPIDs)
    (U := newWindowStore n maxPIDs) rfl rfl rfl hpos hroom hspent
  unfold classify at hknown ⊢
  split_ifs at hknown ⊢ with hse
  · rfl
  · rcases hsim.sets pid with ⟨hb, hu⟩ | ⟨b, u, gone, hb, hu, -, hsim⟩
    · rw [hb, hu]
    · rw [hb] at hknown
      rw [hb, hu]
      exact hsim.classify hknown

/-- A burst of process 1, closed with a promise that no other follows. -/
def lastBurst (startNs endNs : Nat) : GPUSamplingWindow :=
  { pid := 1, startNs := startNs, endNs := endNs, mode := .kernelSerialized,
    nextStartDeltaMs := quietNever }

theorem eviction_only_degrades_two_bursts :
    Along add EvictsSpent (newWindowStore 1 1) [lastBurst 10 15, lastBurst 20 25] ∧
    ((newWindowStore 2 1).run [lastBurst 10 15, lastBurst 20 25]).classify 1 30 40 =
      ((newWindowStore 1 1).run [lastBurst 10 15, lastBurst 20 25]).classify 1 30 40 :=
  ⟨by decide, eviction_only_degrades 1 1 2 _ (by decide) (by decide) 1 30 40 (by decide)⟩

/-- A burst whose close was never reported is evicted, and with it the only reason not
to read a later execution as undisturbed. -/
theorem eviction_turns_unknown_into_notSerialized :
    ¬ ∀ (maxPerPID maxPIDs n : Int) (ws : List GPUSamplingWindow), (ws.length : Int) ≤ n →
      ∀ pid s e, ((newWindowStore maxPerPID maxPIDs).run ws).classify pid s e ≠ .unknown →
        ((newWindowStore n maxPIDs).run ws).classify pid s e =
          ((newWindowStore maxPerPID maxPIDs).run ws).classify pid s e := by
  intro h
  have := h 1 1 2 [{ pid := 1, startNs := 10, mode := .kernelSerialized }, lastBurst 20 25]
    (by decide) 1 30 40 (by decide)
  revert this
  decide

end WindowStore

end PerfAgent.Gpu
