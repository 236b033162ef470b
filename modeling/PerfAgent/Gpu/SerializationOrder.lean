import Mathlib.Data.List.Perm.Subperm
import PerfAgent.Gpu.SerializationCoverage

/-!
# The order of delivery

While nothing is evicted, the history of a process says of each burst one thing: its first
closed record, or its first open one when no close has come.  `burst` is that answer as a
function of the records, and a history is `Canonical` when its windows are the answers for
all starts, in start order.

A permutation of the records changes the answer only where two records of a burst disagree,
so a collection that has one open and one closed record a burst leaves the same windows in
whatever order it is delivered.
-/

namespace PerfAgent.Gpu

variable {ws : List GPUSamplingWindow} {l : List SamplingWindow}

abbrev GPUSamplingWindow.Inverted (w : GPUSamplingWindow) : Prop :=
  w.endNs ≠ 0 ∧ w.endNs < w.startNs

namespace WindowSet

/-- What is held of the burst that starts at `n`, after one more record. -/
def slot (n : Nat) (held : Option SamplingWindow) (w : GPUSamplingWindow) : Option SamplingWindow :=
  if w.Inverted ∨ w.startNs ≠ n then held
  else
    match held with
    | none => some (ofRecord w)
    | some v => some (keep v (ofRecord w))

/-- What is held of the burst that starts at `n`. -/
def burst (ws : List GPUSamplingWindow) (n : Nat) : Option SamplingWindow :=
  ws.foldl (slot n) none

structure Canonical (set : WindowSet) (ws : List GPUSamplingWindow) : Prop where
  ordered : StartOrdered set.wins
  mem : ∀ v, v ∈ set.wins ↔ burst ws v.startNs = some v

/-- Two records of one burst are the same, if they are both open or both closed. -/
def OnePerStart (ws : List GPUSamplingWindow) : Prop :=
  ∀ r ∈ ws, ∀ r' ∈ ws, r.startNs = r'.startNs → (ofRecord r).isOpen = (ofRecord r').isOpen → ofRecord r = ofRecord r'

/-! ## One burst -/

theorem burst_snoc (ws : List GPUSamplingWindow) (w : GPUSamplingWindow) (n : Nat) :
    burst (ws ++ [w]) n = slot n (burst ws n) w := by
  simp [burst]

theorem slot_of_other {n : Nat} {w : GPUSamplingWindow} (h : w.Inverted ∨ w.startNs ≠ n)
    (held : Option SamplingWindow) : slot n held w = held := if_pos h

theorem slot_none {w : GPUSamplingWindow} (h : ¬w.Inverted) :
    slot w.startNs none w = some (ofRecord w) := if_neg (by simpa using h)

theorem slot_some {w : GPUSamplingWindow} (h : ¬w.Inverted) (v : SamplingWindow) :
    slot w.startNs (some v) w = some (keep v (ofRecord w)) := if_neg (by simpa using h)

theorem keep_eq_or (v nw : SamplingWindow) : keep v nw = v ∨ keep v nw = nw := by
  unfold keep
  split
  · exact .inr rfl
  · exact .inl rfl

theorem isOpen_keep {v nw : SamplingWindow} (h : nw.isOpen = false) : (keep v nw).isOpen = false := by
  unfold keep
  split
  · exact h
  · simp_all

theorem mem_of_burst {n : Nat} {v : SamplingWindow} (h : burst ws n = some v) :
    ∃ r ∈ ws, ¬r.Inverted ∧ r.startNs = n ∧ ofRecord r = v := by
  induction ws using List.reverseRecOn generalizing v with
  | nil => cases h
  | append_singleton ws w ih =>
    have old : ∀ {v}, burst ws n = some v → ∃ r ∈ ws ++ [w], ¬r.Inverted ∧ r.startNs = n ∧ ofRecord r = v := by
      intro v hv
      obtain ⟨r, hr, h⟩ := ih hv
      exact ⟨r, List.mem_append_left _ hr, h⟩
    rw [burst_snoc] at h
    by_cases hw : w.Inverted ∨ w.startNs ≠ n
    · rw [slot_of_other hw] at h
      exact old h
    · obtain ⟨hinv, rfl⟩ : ¬w.Inverted ∧ w.startNs = n := by
        rw [not_or, not_not] at hw
        exact hw
      have new : ∃ r ∈ ws ++ [w], ¬r.Inverted ∧ r.startNs = w.startNs ∧ ofRecord r = ofRecord w :=
        ⟨w, by simp, hinv, rfl, rfl⟩
      cases hb : burst ws w.startNs with
      | none =>
        rw [hb, slot_none hinv] at h
        cases h
        exact new
      | some u =>
        rw [hb, slot_some hinv] at h
        cases h
        rcases keep_eq_or u (ofRecord w) with hk | hk
        · rw [hk]
          exact old hb
        · rw [hk]
          exact new

theorem startNs_of_burst {n : Nat} {v : SamplingWindow} (h : burst ws n = some v) : v.startNs = n := by
  obtain ⟨r, -, -, rfl, rfl⟩ := mem_of_burst h
  rfl

theorem burst_append {n : Nat} {v : SamplingWindow} (h : burst ws n = some v) (ws' : List GPUSamplingWindow) :
    ∃ v', burst (ws ++ ws') n = some v' ∧ (v.isOpen = false → v' = v) := by
  induction ws' using List.reverseRecOn with
  | nil => exact ⟨v, by rwa [List.append_nil], fun _ => rfl⟩
  | append_singleton ws' w ih =>
    obtain ⟨v', hv', heq⟩ := ih
    rw [← List.append_assoc, burst_snoc, hv', slot]
    split_ifs with hw
    · exact ⟨v', rfl, heq⟩
    · refine ⟨_, rfl, fun hclosed => ?_⟩
      rw [heq hclosed, keep_of_closed hclosed]

theorem burst_of_mem {r : GPUSamplingWindow} (hr : r ∈ ws) (hinv : ¬r.Inverted) :
    ∃ v, burst ws r.startNs = some v ∧ ((ofRecord r).isOpen = false → v.isOpen = false) := by
  obtain ⟨ws₁, ws₂, rfl⟩ := List.append_of_mem hr
  have hafter : ∃ v, burst (ws₁ ++ [r]) r.startNs = some v ∧ ((ofRecord r).isOpen = false → v.isOpen = false) := by
    rw [burst_snoc]
    cases burst ws₁ r.startNs with
    | none => exact ⟨_, slot_none hinv, id⟩
    | some u => exact ⟨_, slot_some hinv u, isOpen_keep⟩
  obtain ⟨v, hv, hclosed⟩ := hafter
  obtain ⟨v', hv', heq⟩ := burst_append hv ws₂
  rw [List.append_assoc] at hv'
  refine ⟨v', hv', fun h => ?_⟩
  rw [heq (hclosed h)]
  exact hclosed h

theorem burst_perm {ws' : List GPUSamplingWindow} (hp : ws'.Perm ws) (hone : OnePerStart ws) (n : Nat) :
    burst ws' n = burst ws n := by
  cases hb : burst ws n with
  | none =>
    cases hb' : burst ws' n with
    | none => rfl
    | some v =>
      obtain ⟨r, hr, hinv, rfl, -⟩ := mem_of_burst hb'
      obtain ⟨u, hu, -⟩ := burst_of_mem (hp.mem_iff.mp hr) hinv
      rw [hb] at hu
      cases hu
  | some v =>
    obtain ⟨r, hr, hinv, rfl, rfl⟩ := mem_of_burst hb
    obtain ⟨v', hb', hclosed'⟩ := burst_of_mem (hp.mem_iff.mpr hr) hinv
    obtain ⟨r', hr', hinv', hstart, rfl⟩ := mem_of_burst hb'
    obtain ⟨u, hu, hclosed⟩ := burst_of_mem (hp.mem_iff.mp hr') hinv'
    rw [hstart, hb, Option.some.injEq] at hu
    subst hu
    rw [hb', hone r' (hp.mem_iff.mp hr') r hr hstart ?_]
    -- each of the two is open if the other is
    exact Bool.eq_iff_iff.mpr (by
      constructor
      · intro ho
        by_contra hc
        rw [hclosed' (by simpa using hc)] at ho
        cases ho
      · intro ho
        by_contra hc
        rw [hclosed (by simpa using hc)] at ho
        cases ho)

/-! ## The windows -/

theorem StartOrdered.nodup_starts (h : StartOrdered l) : (l.map SamplingWindow.startNs).Nodup :=
  List.pairwise_map.mpr (h.imp Nat.ne_of_lt)

theorem StartOrdered.inj (h : StartOrdered l) {v w : SamplingWindow} (hv : v ∈ l) (hw : w ∈ l)
    (heq : v.startNs = w.startNs) : v = w :=
  List.inj_on_of_nodup_map h.nodup_starts hv hw heq

theorem Canonical.wins_eq {set set' : WindowSet} {ws' : List GPUSamplingWindow} (h : set.Canonical ws)
    (h' : set'.Canonical ws') (heq : ∀ n, burst ws' n = burst ws n) : set'.wins = set.wins := by
  refine h'.ordered.eq_of_perm h.ordered ?_
  refine (List.perm_ext_iff_of_nodup h'.ordered.nodup_starts.of_map h.ordered.nodup_starts.of_map).mpr fun v => ?_
  rw [h.mem, h'.mem, heq]

theorem Canonical.add {set : WindowSet} {ws : List GPUSamplingWindow} {r : GPUSamplingWindow}
    {n : Nat} (h : set.Canonical ws) (hinv : ¬r.Inverted)
    (hroom : supersede (ofRecord r) set.wins = none → set.wins.length < n) :
    (set.add n r).1.Canonical (ws ++ [r]) := by
  -- the other bursts are as they were
  have hother : ∀ v : SamplingWindow, r.startNs ≠ v.startNs →
      (v ∈ set.wins ↔ burst (ws ++ [r]) v.startNs = some v) := by
    intro v hne
    rw [burst_snoc, slot_of_other (.inr hne), h.mem]
  cases hs : supersede (ofRecord r) set.wins with
  | none =>
    rw [(add_room hs (hroom hs)).1]
    have hne := supersede_eq_none.mp hs
    have hb : burst ws r.startNs = none := by
      by_contra hb
      obtain ⟨v, hv⟩ := Option.ne_none_iff_exists'.mp hb
      have hstart := startNs_of_burst hv
      exact hne v ((h.mem v).mpr (by rw [hstart]; exact hv)) hstart
    refine ⟨append_startOrdered h.ordered hne, fun v => ?_⟩
    rw [(append_perm _ _).mem_iff, List.mem_append, List.mem_singleton]
    by_cases hv : r.startNs = v.startNs
    · rw [← hv, burst_snoc, hb, slot_none hinv, Option.some.injEq, eq_comm (a := v)]
      refine or_iff_right fun hmem => ?_
      exact hne v hmem hv.symm
    · rw [← hother v hv]
      refine or_iff_left ?_
      rintro rfl
      exact hv rfl
  | some wins =>
    rw [add_of_supersede hs]
    have hstarts := map_startNs_supersede hs
    obtain ⟨pre, u, post, heq, hu, rfl⟩ := supersede_eq_some hs
    have hord : StartOrdered (pre ++ keep u (ofRecord r) :: post) := h.ordered.congr hstarts
    refine ⟨hord, fun v => ?_⟩
    have humem : u ∈ set.wins := by simp [heq]
    have hkeep : keep u (ofRecord r) ∈ pre ++ keep u (ofRecord r) :: post := by simp
    have hks : (keep u (ofRecord r)).startNs = r.startNs := (keep_startNs hu).trans hu
    by_cases hv : r.startNs = v.startNs
    · have hub : burst ws r.startNs = some u := by
        rw [← show u.startNs = r.startNs from hu]
        exact (h.mem u).mp humem
      rw [← hv, burst_snoc, hub, slot_some hinv, Option.some.injEq]
      constructor
      · exact fun hmem => hord.inj hkeep hmem (hks.trans hv)
      · rintro rfl
        exact hkeep
    · rw [← hother v hv, heq]
      have h1 : v ≠ u := by
        rintro rfl
        exact hv hu.symm
      have h2 : v ≠ keep u (ofRecord r) := by
        rintro rfl
        exact hv hks.symm
      simp [h1, h2]

end WindowSet

/-! ## Runs of the store -/

namespace WindowStore

open WindowSet

def windowsOf (s : WindowStore) (pid : Nat) : List SamplingWindow :=
  match s.byPID.find? pid with
  | none => []
  | some set => set.wins

/-- The store has a history for the process that is the bursts of the records. -/
structure CanonicalAt (s : WindowStore) (pid : Nat) (ws : List GPUSamplingWindow)
    (set : WindowSet) : Prop where
  setFor : s.setFor pid = some set
  canonical : set.Canonical ws
  room : set.wins.length ≤ s.maxPerPID

theorem CanonicalAt.windowsOf {s : WindowStore} {pid : Nat} {ws : List GPUSamplingWindow}
    {set : WindowSet} (h : s.CanonicalAt pid ws set) : s.windowsOf pid = set.wins := by
  unfold WindowStore.windowsOf
  rcases find?_of_setFor h.setFor with hf | rfl
  · rw [hf]
  · cases hf : s.byPID.find? pid with
    | none => rfl
    | some set' =>
      have hset := h.setFor
      rw [WindowStore.setFor, hf] at hset
      rw [Option.some.inj hset]

theorem evicted_add {s : WindowStore} {w : GPUSamplingWindow} {set : WindowSet}
    (hinv : ¬w.Inverted) (h : s.setFor w.pid = some set) : (s.add w).evicted = s.evicted +
      match supersede (ofRecord w) set.wins with
      | some _ => 0
      | none => set.wins.length + 1 - s.maxPerPID := by
  unfold add
  rw [if_neg hinv, h]
  simp only [WindowSet.add, wins_restart]
  cases supersede (ofRecord w) set.wins with
  | some _ => rfl
  | none => simp only [length_append]

theorem add_of_inverted {s : WindowStore} {w : GPUSamplingWindow} (hinv : w.Inverted) :
    s.add w = { s with unknownMode := s.unknownMode + 1 } := if_pos hinv

theorem evicted_add_le (s : WindowStore) (w : GPUSamplingWindow) : s.evicted ≤ (s.add w).evicted := by
  by_cases hinv : w.Inverted
  · rw [add_of_inverted hinv]
  · cases h : s.setFor w.pid with
    | none =>
      unfold add
      rw [if_neg hinv, h]
    | some set =>
      rw [evicted_add hinv h]
      exact Nat.le_add_right _ _

theorem burst_snoc_of_inverted {w : GPUSamplingWindow} (hinv : w.Inverted)
    (ws : List GPUSamplingWindow) (n : Nat) : burst (ws ++ [w]) n = burst ws n := by
  rw [burst_snoc, slot_of_other (.inl hinv)]

theorem CanonicalAt.add {s : WindowStore} {pid : Nat} {ws : List GPUSamplingWindow}
    {set : WindowSet} (h : s.CanonicalAt pid ws set) {r : GPUSamplingWindow} (hpid : r.pid = pid)
    (hroom : ¬r.Inverted → supersede (ofRecord r) set.wins = none → set.wins.length < s.maxPerPID) :
    (∃ set', (s.add r).CanonicalAt pid (ws ++ [r]) set') ∧ (s.add r).evicted = s.evicted := by
  subst hpid
  by_cases hinv : r.Inverted
  · rw [add_of_inverted hinv]
    refine ⟨⟨set, h.setFor, ⟨h.canonical.ordered, fun v => ?_⟩, h.room⟩, rfl⟩
    rw [burst_snoc_of_inverted hinv, h.canonical.mem]
  · obtain ⟨hput, hmax, -⟩ := add_of_setFor hinv h.setFor
    have hfind : (s.add r).setFor r.pid = some (set.add s.maxPerPID r).1 := by
      rw [WindowStore.setFor, hput, AssocMap.find?_put_self]
    refine ⟨⟨_, hfind, h.canonical.add hinv (hroom hinv), ?_⟩, ?_⟩
    · rw [hmax]
      cases hs : supersede (ofRecord r) set.wins with
      | none =>
        rw [(add_room hs (hroom hinv hs)).1]
        exact (length_append _ _).trans_le (hroom hinv hs)
      | some wins =>
        rw [add_of_supersede hs]
        have hlen := congrArg List.length (map_startNs_supersede hs)
        rw [List.length_map, List.length_map] at hlen
        exact hlen.trans_le h.room
    · rw [evicted_add hinv h.setFor]
      cases hs : supersede (ofRecord r) set.wins with
      | none =>
        have := hroom hinv hs
        simp only
        omega
      | some wins => rfl

theorem canonicalAt_newWindowStore (maxPerPID maxPIDs : Int) (pid : Nat) :
    (newWindowStore maxPerPID maxPIDs).CanonicalAt pid [] {} := by
  have hpos : 0 < (newWindowStore maxPerPID maxPIDs).maxPIDs := by
    simp only [newWindowStore, defaultMaxSamplingWindowPIDs]
    split <;> omega
  exact ⟨if_neg (Nat.not_le.mpr hpos), ⟨.nil, fun v => by simp [burst]⟩, Nat.zero_le _⟩

section Runs

variable {maxPerPID maxPIDs : Int} {pid : Nat}

theorem canonicalAt_run (hpid : ∀ r ∈ ws, r.pid = pid) (hroom : ((newWindowStore maxPerPID maxPIDs).run ws).evicted = 0)
    :
    ∃ set, ((newWindowStore maxPerPID maxPIDs).run ws).CanonicalAt pid ws set := by
  induction ws using List.reverseRecOn with
  | nil => exact ⟨{}, canonicalAt_newWindowStore maxPerPID maxPIDs pid⟩
  | append_singleton ws r ih =>
    rw [run_snoc] at hroom ⊢
    have hzero := Nat.eq_zero_of_le_zero ((evicted_add_le _ r).trans_eq hroom)
    obtain ⟨set, h⟩ := ih (fun r' hr' => hpid r' (List.mem_append_left _ hr')) hzero
    have hr : r.pid = pid := hpid r (by simp)
    refine (h.add hr fun hinv hs => ?_).1
    have hev := evicted_add hinv (hr ▸ h.setFor)
    rw [hroom, hzero, hs] at hev
    simp only at hev
    omega

theorem evicted_run_eq_zero {ws : List GPUSamplingWindow} (hpid : ∀ r ∈ ws, r.pid = pid)
    {starts : List Nat} (hlen : starts.length ≤ (newWindowStore maxPerPID maxPIDs).maxPerPID)
    (hstarts : ∀ r ∈ ws, ¬r.Inverted → r.startNs ∈ starts) :
    ((newWindowStore maxPerPID maxPIDs).run ws).evicted = 0 := by
  induction ws using List.reverseRecOn with
  | nil => rfl
  | append_singleton ws r ih =>
    have hzero := ih (fun r' hr' => hpid r' (List.mem_append_left _ hr'))
      fun r' hr' => hstarts r' (List.mem_append_left _ hr')
    obtain ⟨set, h⟩ := canonicalAt_run (fun r' hr' => hpid r' (List.mem_append_left _ hr')) hzero
    rw [run_snoc, ← hzero]
    refine (h.add (hpid r (by simp)) fun hinv hs => ?_).2
    rw [maxPerPID_run]
    refine Nat.lt_of_lt_of_le ?_ hlen
    -- the windows held and the new one are different bursts of the collection
    have hnodup : (r.startNs :: set.wins.map SamplingWindow.startNs).Nodup := by
      refine List.nodup_cons.mpr ⟨fun hmem => ?_, h.canonical.ordered.nodup_starts⟩
      obtain ⟨v, hv, heq⟩ := List.mem_map.mp hmem
      exact supersede_eq_none.mp hs v hv heq
    have hsub : r.startNs :: set.wins.map SamplingWindow.startNs ⊆ starts := by
      intro n hn
      rcases List.mem_cons.mp hn with rfl | hn
      · exact hstarts r (by simp) hinv
      · obtain ⟨v, hv, rfl⟩ := List.mem_map.mp hn
        obtain ⟨r', hr', hinv', heq, -⟩ := mem_of_burst ((h.canonical.mem v).mp hv)
        rw [← heq]
        exact hstarts r' (List.mem_append_left _ hr') hinv'
    have := (List.subperm_of_subset hnodup hsub).length_le
    rw [List.length_cons, List.length_map] at this
    exact this

theorem evicted_run_le (s : WindowStore) (ws ws' : List GPUSamplingWindow) :
    (s.run ws).evicted ≤ (s.run (ws ++ ws')).evicted := by
  induction ws' using List.reverseRecOn with
  | nil => rw [List.append_nil]
  | append_singleton ws' w ih =>
    rw [← List.append_assoc, run_snoc]
    exact ih.trans (evicted_add_le _ w)

/-- Within capacity the retained windows are in strict start order, no more than the bound
and records of the process; a closed record takes the place of the open one of its start and
stays to the end; and every order of a collection with one record of a kind each start leaves
the same windows. -/
theorem windows_canonical (maxPerPID maxPIDs : Int) (pid : Nat) (ws : List GPUSamplingWindow)
    (hpid : ∀ r ∈ ws, r.pid = pid)
    (hroom : ((newWindowStore maxPerPID maxPIDs).run ws).evicted = 0) :
    StartOrdered (((newWindowStore maxPerPID maxPIDs).run ws).windowsOf pid) ∧
    (((newWindowStore maxPerPID maxPIDs).run ws).windowsOf pid).length ≤ (newWindowStore maxPerPID maxPIDs).maxPerPID ∧
    (∀ v ∈ ((newWindowStore maxPerPID maxPIDs).run ws).windowsOf pid, ∃ r ∈ ws, ofRecord r = v) ∧
    (∀ r ∈ ws, ¬r.Inverted → ∃ v ∈ ((newWindowStore maxPerPID maxPIDs).run ws).windowsOf pid, v.startNs = r.startNs) ∧
    (∀ ws₁ r ws₂, ws = ws₁ ++ r :: ws₂ → ¬r.Inverted → (ofRecord r).isOpen = false →
      (∀ v ∈ ((newWindowStore maxPerPID maxPIDs).run ws₁).windowsOf pid, v.startNs = r.startNs → v.isOpen = true) →
      ofRecord r ∈ ((newWindowStore maxPerPID maxPIDs).run ws).windowsOf pid) ∧
    (∀ ws₁ ws₂, ws = ws₁ ++ ws₂ → ∀ v ∈ ((newWindowStore maxPerPID maxPIDs).run ws₁).windowsOf pid, v.isOpen = false →
        v ∈ ((newWindowStore maxPerPID maxPIDs).run ws).windowsOf pid) ∧
    ∀ ws', ws'.Perm ws → OnePerStart ws → ((newWindowStore maxPerPID maxPIDs).run ws').windowsOf pid =
        ((newWindowStore maxPerPID maxPIDs).run ws).windowsOf pid := by
  obtain ⟨set, h⟩ := canonicalAt_run hpid hroom
  have hbefore : ∀ ws₁ ws₂, ws = ws₁ ++ ws₂ →
      ∃ set₁, ((newWindowStore maxPerPID maxPIDs).run ws₁).CanonicalAt pid ws₁ set₁ := by
    rintro ws₁ ws₂ rfl
    exact canonicalAt_run (fun r hr => hpid r (List.mem_append_left _ hr))
      (Nat.eq_zero_of_le_zero ((evicted_run_le _ ws₁ ws₂).trans_eq hroom))
  rw [h.windowsOf]
  refine ⟨h.canonical.ordered, ?_, ?_, ?_, ?_, ?_, ?_⟩
  · have := h.room
    rwa [maxPerPID_run] at this
  · intro v hv
    obtain ⟨r, hr, -, -, heq⟩ := mem_of_burst ((h.canonical.mem v).mp hv)
    exact ⟨r, hr, heq⟩
  · intro r hr hinv
    obtain ⟨v, hv, -⟩ := burst_of_mem hr hinv
    have hstart := startNs_of_burst hv
    exact ⟨v, (h.canonical.mem v).mpr (by rwa [hstart]), hstart⟩
  · intro ws₁ r ws₂ hws hinv hclosed hopen
    obtain ⟨set₁, h₁⟩ := hbefore ws₁ (r :: ws₂) hws
    rw [h₁.windowsOf] at hopen
    have hb : burst (ws₁ ++ [r]) r.startNs = some (ofRecord r) := by
      rw [burst_snoc]
      cases hv : burst ws₁ r.startNs with
      | none => exact slot_none hinv
      | some v =>
        have hstart := startNs_of_burst hv
        have hv := hopen v ((h₁.canonical.mem v).mpr (by rwa [hstart])) hstart
        rw [slot_some hinv, keep, if_pos (by rw [hv, hclosed]; rfl)]
    obtain ⟨v, hv, heq⟩ := burst_append hb ws₂
    rw [heq hclosed, List.append_assoc, List.singleton_append, ← hws] at hv
    exact (h.canonical.mem _).mpr hv
  · intro ws₁ ws₂ hws v hv hclosed
    obtain ⟨set₁, h₁⟩ := hbefore ws₁ ws₂ hws
    rw [h₁.windowsOf, h₁.canonical.mem] at hv
    obtain ⟨v', hv', heq⟩ := burst_append hv ws₂
    rw [heq hclosed, ← hws] at hv'
    exact (h.canonical.mem v).mpr hv'
  · intro ws' hperm hone
    have hpid' : ∀ r ∈ ws', r.pid = pid := fun r hr => hpid r (hperm.mem_iff.mp hr)
    have hroom' : ((newWindowStore maxPerPID maxPIDs).run ws').evicted = 0 := by
      refine @evicted_run_eq_zero _ _ _ _ hpid' (set.wins.map SamplingWindow.startNs) ?_ fun r hr hinv => ?_
      · have := h.room
        rwa [maxPerPID_run, ← List.length_map SamplingWindow.startNs] at this
      · obtain ⟨v, hv, -⟩ := burst_of_mem (hperm.mem_iff.mp hr) hinv
        have hstart := startNs_of_burst hv
        exact List.mem_map.mpr ⟨v, (h.canonical.mem v).mpr (by rwa [hstart]), hstart⟩
    obtain ⟨set', h'⟩ := canonicalAt_run hpid' hroom'
    rw [h'.windowsOf]
    exact h.canonical.wins_eq h'.canonical (burst_perm hperm hone)

/-- Two bursts of process 1, with the close of the younger one first of all. -/
def crossed : List GPUSamplingWindow :=
  [{ pid := 1, startNs := 20, endNs := 25, mode := .continuous },
    { pid := 1, startNs := 10, mode := .kernelSerialized },
    { pid := 1, startNs := 20, mode := .continuous },
    { pid := 1, startNs := 10, endNs := 15, mode := .kernelSerialized }]

theorem windows_canonical_crossed : OnePerStart crossed ∧ ((newWindowStore 2 1).run crossed.reverse).windowsOf 1 =
      ((newWindowStore 2 1).run crossed).windowsOf 1 := by
  have hone : OnePerStart crossed := by
    unfold OnePerStart
    decide
  obtain ⟨-, -, -, -, -, -, hperm⟩ :=
    windows_canonical 2 1 1 crossed (by decide) (by decide)
  exact ⟨hone, hperm crossed.reverse (List.reverse_perm crossed) hone⟩

end Runs

end WindowStore

end PerfAgent.Gpu
