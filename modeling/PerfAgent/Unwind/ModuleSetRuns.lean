import PerfAgent.Unwind.ModuleSet

/-!
# Runs of the module set

A retry knows a pid and nothing else.  `Detach` does not end it, and a second `Enroll` of the
pid starts another one beside it, so what the set promises holds in the runs that keep clear of
both; a resolver that outlives `Close` is the third way to fail.  `Respects` is exactly that.

`Ok` is what every run keeps: what is held and what is asked belongs to a module of the set, and
a closed set has none.
-/

namespace PerfAgent.Unwind

open List

namespace ModuleSet

variable {s s' : ModuleSet}

/-! ## What the operations leave alone -/

variable {answers : Nat → EnrolAnswer} {ms : List Nat}

section

variable (s : ModuleSet) (k : Nat × UInt32) (m : Nat) (pid : UInt32) (a : EnrolAnswer) (i : Nat) (t : Retry)
  (r : ClaimedRange) (stored : Bool)

@[simp] theorem hold_entries : (s.hold k a).entries = s.entries := rfl
@[simp] theorem hold_retries : (s.hold k a).retries = s.retries := rfl
@[simp] theorem hold_closed : (s.hold k a).closed = s.closed := rfl
@[simp] theorem hold_detached : (s.hold k a).detached = s.detached := rfl

variable {k} in
theorem hold_records_of_ne {k' : Nat × UInt32} (h : k' ≠ k) : (s.hold k a).records k' = s.records k' := by
  unfold hold
  dsimp only
  split
  · exact Function.update_of_ne h _ _
  · rfl

variable {k} in
theorem hold_resolvers_of_ne {k' : Nat × UInt32} (h : k' ≠ k) : (s.hold k a).resolvers k' = s.resolvers k' := by
  unfold hold
  dsimp only
  split
  · exact Function.update_of_ne h _ _
  · rfl

variable {a} in
theorem hold_records_self (h : a.records = true) : (s.hold k a).records k ≠ none := by
  unfold hold
  dsimp only
  rw [if_pos h, Function.update_self]
  exact Option.some_ne_none _

variable {a} in
theorem hold_of_not_records (h : a.records = false) : s.hold k a = s := by
  have hresolves : a.resolves = false :=
    eq_false_of_ne_true fun hr => Bool.false_ne_true (h.symm.trans (EnrolAnswer.records_of_resolves hr))
  unfold hold
  rw [h, hresolves]
  rfl

@[simp] theorem installRange_entries : (s.installRange m r stored).entries = s.entries := by
  unfold installRange; split <;> rfl
@[simp] theorem installRange_retries : (s.installRange m r stored).retries = s.retries := by
  unfold installRange; split <;> rfl
@[simp] theorem installRange_closed : (s.installRange m r stored).closed = s.closed := by
  unfold installRange; split <;> rfl
@[simp] theorem installRange_detached : (s.installRange m r stored).detached = s.detached := by
  unfold installRange; split <;> rfl
@[simp] theorem installRange_records : (s.installRange m r stored).records = s.records := by
  unfold installRange; split <;> rfl
@[simp] theorem installRange_resolvers : (s.installRange m r stored).resolvers = s.resolvers := by
  unfold installRange; split <;> rfl

end

/-- Only what the modules `ms` hold for `pid`, and the retries, may be different. -/
structure Offered (s s' : ModuleSet) (pid : UInt32) (ms : List Nat) : Prop where
  entries : s'.entries = s.entries
  closed : s'.closed = s.closed
  detached : s'.detached = s.detached
  records : ∀ k, (k.1 ∈ ms → k.2 ≠ pid) → s'.records k = s.records k
  resolvers : ∀ k, (k.1 ∈ ms → k.2 ≠ pid) → s'.resolvers k = s.resolvers k

theorem ne_of_offered {k : Nat × UInt32} {m : Nat} {pid : UInt32} (h : k.1 ∈ [m] → k.2 ≠ pid) : k ≠ (m, pid) := by
  rintro rfl
  exact h (mem_singleton_self m) rfl

theorem offered_hold (s : ModuleSet) (m : Nat) (pid : UInt32) (a : EnrolAnswer) :
    Offered s (s.hold (m, pid) a) pid [m] where
  entries := rfl
  closed := rfl
  detached := rfl
  records _ hk := s.hold_records_of_ne a (ne_of_offered hk)
  resolvers _ hk := s.hold_resolvers_of_ne a (ne_of_offered hk)

theorem offered_offer (s : ModuleSet) (m : Nat) (pid : UInt32) (a : EnrolAnswer) :
    Offered s (s.offer pid a m) pid [m] := by
  have h := s.offered_hold m pid a
  cases a with
  | retryable => exact ⟨h.entries, h.closed, h.detached, h.records, h.resolvers⟩
  | attached resolver r stored =>
    unfold offer
    dsimp only
    split
    · exact h
    · exact ⟨by simp, by simp, by simp, by simpa using h.records, by simpa using h.resolvers⟩
  | _ => exact h

theorem offered_offerAll (pid : UInt32) (answers : Nat → EnrolAnswer) (ms : List Nat) (s : ModuleSet) :
    Offered s (s.offerAll pid answers ms) pid ms := by
  induction ms generalizing s with
  | nil => exact ⟨rfl, rfl, rfl, fun _ _ => rfl, fun _ _ => rfl⟩
  | cons m ms ih =>
    have hm := s.offered_offer m pid (answers m)
    have hms := ih (s.offer pid (answers m) m)
    refine ⟨hms.entries.trans hm.entries, hms.closed.trans hm.closed, hms.detached.trans hm.detached,
      fun k hk => ?_, fun k hk => ?_⟩
    · exact (hms.records k fun h => hk (mem_cons_of_mem m h)).trans
        (hm.records k fun h => hk (mem_cons.mpr (.inl (mem_singleton.mp h))))
    · exact (hms.resolvers k fun h => hk (mem_cons_of_mem m h)).trans
        (hm.resolvers k fun h => hk (mem_cons.mpr (.inl (mem_singleton.mp h))))

/-- The retries that `Enroll` starts. -/
def started (pid : UInt32) (answers : Nat → EnrolAnswer) (ms : List Nat) : List Retry :=
  (ms.filter fun m => answers m = .retryable).map fun m => ⟨m, pid, retrySchedule, .asleep⟩

theorem offer_retries (s : ModuleSet) (pid : UInt32) (answers : Nat → EnrolAnswer) (m : Nat) :
    (s.offer pid (answers m) m).retries = s.retries ++ started pid answers [m] := by
  unfold started
  cases ha : answers m with
  | retryable => simp [ha, offer, scheduleRetry]
  | attached resolver r stored =>
    simp only [offer, filter_singleton, ha]
    split <;> simp
  | _ => simp [ha, offer]

theorem offerAll_retries (pid : UInt32) (answers : Nat → EnrolAnswer) (ms : List Nat) (s : ModuleSet) :
    (s.offerAll pid answers ms).retries = s.retries ++ started pid answers ms := by
  induction ms generalizing s with
  | nil => exact (append_nil _).symm
  | cons m ms ih =>
    have hstarted : started pid answers (m :: ms) = started pid answers [m] ++ started pid answers ms := by
      unfold started
      rw [← singleton_append, filter_append, map_append]
    calc ((s.offer pid (answers m) m).offerAll pid answers ms).retries
        = (s.offer pid (answers m) m).retries ++ started pid answers ms := ih _
      _ = s.retries ++ started pid answers (m :: ms) := by
        rw [offer_retries, hstarted, append_assoc]

theorem offered_enroll (s : ModuleSet) (pid : UInt32) (answers : Nat → EnrolAnswer) :
    Offered { s with detached := Function.update s.detached pid false } (s.enroll pid answers).1 pid s.entries :=
  offered_offerAll pid answers s.entries _

theorem enroll_retries (s : ModuleSet) (pid : UInt32) (answers : Nat → EnrolAnswer) :
    (s.enroll pid answers).1.retries.map Retry.key =
      s.retries.map Retry.key ++ (started pid answers s.entries).map Retry.key := by
  unfold enroll
  rw [offerAll_retries, map_append]

theorem mem_started {pid : UInt32} {k : Nat × UInt32} :
    k ∈ (started pid answers ms).map Retry.key ↔ k.1 ∈ ms ∧ answers k.1 = .retryable ∧ k.2 = pid := by
  unfold started
  rw [map_map]
  constructor
  · intro h
    obtain ⟨m, hm, rfl⟩ := mem_map.mp h
    obtain ⟨hmem, ha⟩ := mem_filter.mp hm
    exact ⟨hmem, of_decide_eq_true ha, rfl⟩
  · rintro ⟨hmem, ha, rfl⟩
    exact mem_map.mpr ⟨k.1, mem_filter.mpr ⟨hmem, decide_eq_true ha⟩, rfl⟩

theorem nodup_started {pid : UInt32} (h : ms.Nodup) : ((started pid answers ms).map Retry.key).Nodup := by
  unfold started
  rw [map_map]
  exact (h.filter _).map fun m m' heq => congrArg Prod.fst heq

/-- A retry has gone on: what its module left behind is there, and at most its own entry has gone. -/
structure Retried (s s' : ModuleSet) (k : Nat × UInt32) (a : EnrolAnswer) : Prop where
  entries : s'.entries = s.entries
  closed : s'.closed = s.closed
  detached : s'.detached = s.detached
  records : s'.records = (s.hold k a).records
  resolvers : s'.resolvers = (s.hold k a).resolvers
  keys : (s'.retries.map Retry.key).Sublist (s.retries.map Retry.key)

theorem keys_set {i : Nat} {t t' : Retry} (ht : s.retries[i]? = some t) (hkey : t'.key = t.key) :
    (s.retries.set i t').map Retry.key = s.retries.map Retry.key := by
  have hi : (s.retries.map Retry.key)[i]? = some t.key := by rw [getElem?_map, ht]; rfl
  obtain ⟨hlt, hget⟩ := List.getElem?_eq_some_iff.mp hi
  rw [map_set, hkey, ← hget, set_getElem_self]

theorem retried_setRetry {i : Nat} {t t' : Retry} {a : EnrolAnswer} (ht : s.retries[i]? = some t)
    (hkey : t'.key = t.key) : Retried s ((s.hold t.key a).setRetry i t') t.key a :=
  ⟨rfl, rfl, rfl, rfl, rfl, (keys_set ht hkey).symm ▸ List.Sublist.refl _⟩

theorem retried_endRetry (i : Nat) (k : Nat × UInt32) (a : EnrolAnswer) : Retried s ((s.hold k a).endRetry i) k a :=
  ⟨rfl, rfl, rfl, rfl, rfl, (eraseIdx_sublist _ _).map _⟩

theorem retried_asked {i : Nat} {t : Retry} (ht : s.retries[i]? = some t) (a : EnrolAnswer) :
    Retried s (s.asked i t a) t.key a := by
  cases a with
  | retryable =>
    unfold asked
    dsimp only
    split
    · exact retried_setRetry ht rfl
    · exact retried_endRetry i t.key _
  | attached resolver r stored =>
    unfold asked
    dsimp only
    split
    · exact retried_endRetry i t.key _
    · exact retried_setRetry ht rfl
  | _ => exact retried_endRetry i t.key _

theorem retried_install (i : Nat) (t : Retry) (r : ClaimedRange) (stored : Bool) :
    Retried s ((s.installRange t.entry r stored).endRetry i) t.key .declined := by
  have hhold : s.hold t.key .declined = s := hold_of_not_records s t.key rfl
  refine ⟨?_, ?_, ?_, ?_, ?_, ?_⟩
  · exact s.installRange_entries t.entry r stored
  · exact s.installRange_closed t.entry r stored
  · exact s.installRange_detached t.entry r stored
  · rw [hhold]
    exact s.installRange_records t.entry r stored
  · rw [hhold]
    exact s.installRange_resolvers t.entry r stored
  · change (((s.installRange t.entry r stored).retries.eraseIdx i).map Retry.key).Sublist _
    rw [installRange_retries]
    exact (eraseIdx_sublist _ _).map _

theorem retried_step {act : Act} {i : Nat}
    (hact : act = .wake i ∨ act = .halt i ∨ act = .install i ∨ ∃ a, act = .ask i a)
    (h : s.step act = some s') :
    ∃ t a, s.retries[i]? = some t ∧ Retried s s' t.key a ∧
      (act = .ask i a ∨ (a = .declined ∧ ∀ b, act ≠ .ask i b)) := by
  have hnone : ∀ k, s.hold k .declined = s := fun k => hold_of_not_records s k rfl
  rcases hact with rfl | rfl | rfl | ⟨a, rfl⟩
  · obtain ⟨t, ht, hs⟩ := Option.bind_eq_some_iff.mp h
    split at hs
    · cases hs
      have hset := @retried_setRetry s _ _ { t with phase := .awake } .declined ht rfl
      rw [hnone] at hset
      exact ⟨t, .declined, ht, hset, .inr ⟨rfl, nofun⟩⟩
    · cases hs
  · obtain ⟨t, ht, hs⟩ := Option.bind_eq_some_iff.mp h
    split at hs
    · cases hs
      have hend := retried_endRetry (s := s) i t.key .declined
      rw [hnone] at hend
      exact ⟨t, .declined, ht, hend, .inr ⟨rfl, nofun⟩⟩
    · cases hs
  · obtain ⟨t, ht, hs⟩ := Option.bind_eq_some_iff.mp h
    split at hs
    · cases hs
      exact ⟨t, .declined, ht, retried_install i t _ _, .inr ⟨rfl, nofun⟩⟩
    · cases hs
  · obtain ⟨t, ht, hs⟩ := Option.bind_eq_some_iff.mp h
    split at hs
    · cases hs
      exact ⟨t, a, ht, retried_asked ht a, .inl rfl⟩
    · cases hs

/-! ## What every run keeps -/

structure Ok (s : ModuleSet) : Prop where
  nodup : s.entries.Nodup
  recorded : ∀ k, s.records k ≠ none → k.1 ∈ s.entries
  resolved : s.closed = false → ∀ k, s.resolvers k ≠ none → k.1 ∈ s.entries
  asking : ∀ k ∈ s.retries.map Retry.key, k.1 ∈ s.entries
  emptied : s.closed = true → s.entries = []

theorem ok_attach (n : Nat) (ids : Nat → UInt32) : (attach n ids).Ok where
  nodup := nodup_range
  recorded _ h := absurd rfl h
  resolved _ _ h := absurd rfl h
  asking := nofun
  emptied := nofun

theorem Ok.enroll (h : s.Ok) (pid : UInt32) (answers : Nat → EnrolAnswer) : (s.enroll pid answers).1.Ok := by
  have ho := s.offered_enroll pid answers
  refine ⟨?_, fun k hk => ?_, fun hc k hk => ?_, fun k hk => ?_, fun hc => ?_⟩
  · exact ho.entries.symm ▸ h.nodup
  · rw [ho.entries]
    by_contra hnot
    exact hnot (h.recorded k ((ho.records k fun hm => absurd hm hnot) ▸ hk))
  · rw [ho.entries]
    by_contra hnot
    exact hnot (h.resolved (ho.closed ▸ hc) k ((ho.resolvers k fun hm => absurd hm hnot) ▸ hk))
  · rw [enroll_retries] at hk
    rw [ho.entries]
    rcases mem_append.mp hk with hold | hnew
    · exact h.asking k hold
    · exact (mem_started.mp hnew).1
  · rw [ho.entries]
    exact h.emptied (ho.closed ▸ hc)

theorem Ok.retried {k : Nat × UInt32} {a : EnrolAnswer} (h : s.Ok) (hr : Retried s s' k a)
    (hk : k.1 ∈ s.entries) : s'.Ok := by
  refine ⟨hr.entries.symm ▸ h.nodup, fun k' hk' => ?_, fun hc k' hk' => ?_, fun k' hk' => ?_, fun hc => ?_⟩
  · rw [hr.entries]
    by_cases hkk : k' = k
    · exact hkk ▸ hk
    · rw [hr.records, hold_records_of_ne s a hkk] at hk'
      exact h.recorded k' hk'
  · rw [hr.entries]
    by_cases hkk : k' = k
    · exact hkk ▸ hk
    · rw [hr.resolvers, hold_resolvers_of_ne s a hkk] at hk'
      exact h.resolved (hr.closed ▸ hc) k' hk'
  · exact hr.entries ▸ h.asking k' (hr.keys.subset hk')
  · exact hr.entries ▸ h.emptied (hr.closed ▸ hc)

theorem Ok.detach (h : s.Ok) (pid : UInt32) : (s.detach pid).Ok := by
  refine ⟨h.nodup, fun k hk => h.recorded k fun hnone => hk ?_, fun hc k hk =>
    h.resolved hc k fun hnone => hk ?_, h.asking, h.emptied⟩
  · change (if _ then none else s.records k) = none
    rw [hnone, ite_self]
  · change (if _ then none else s.resolvers k) = none
    rw [hnone, ite_self]

theorem ok_release (hnil : s.retries = []) : s.release.Ok where
  nodup := nodup_nil
  recorded _ hk := absurd rfl hk
  resolved := nofun
  asking k hk := by
    -- the goroutines are gone
    change k ∈ s.retries.map Retry.key at hk
    rw [hnil] at hk
    cases hk
  emptied _ := rfl

theorem key_mem {i : Nat} {t : Retry} (ht : s.retries[i]? = some t) : t.key ∈ s.retries.map Retry.key :=
  mem_map_of_mem (mem_of_getElem? ht)

theorem Ok.step (h : s.Ok) {act : Act} (ha : s.step act = some s') : s'.Ok := by
  have hretry : ∀ i, (act = .wake i ∨ act = .halt i ∨ act = .install i ∨ ∃ a, act = .ask i a) → s'.Ok := by
    intro i hact
    obtain ⟨t, a, ht, hr, -⟩ := retried_step hact ha
    exact h.retried hr (h.asking _ (key_mem ht))
  cases act with
  | enroll pid answers => cases ha; exact h.enroll pid answers
  | wake i => exact hretry i (.inl rfl)
  | halt i => exact hretry i (.inr (.inl rfl))
  | ask i a => exact hretry i (.inr (.inr (.inr ⟨a, rfl⟩)))
  | install i => exact hretry i (.inr (.inr (.inl rfl)))
  | detach pid => cases ha; exact h.detach pid
  | close => cases ha; exact ⟨h.nodup, h.recorded, h.resolved, h.asking, h.emptied⟩
  | closeReturn =>
    simp only [ModuleSet.step] at ha
    split at ha
    · next hwait =>
        cases ha
        exact ok_release hwait.2
    · cases ha
  | exit pid => cases ha; exact ⟨h.nodup, h.recorded, h.resolved, h.asking, h.emptied⟩

theorem ok_run {n : Nat} {ids : Nat → UInt32} {as : List Act} (h : Run Step (attach n ids) as s) : s.Ok :=
  h.invariant (I := fun _ s => s.Ok) (ok_attach n ids) fun _ _ _ _ _ hs ha => hs.step ha

/-! ## What the set promises -/

structure Sound (s : ModuleSet) : Prop where
  /-- No module holds anything for a detached process. -/
  released : ∀ k, s.detached k.2 = true → s.records k = none ∧ s.resolvers k = none
  /-- No module has two enrolments of a pid pending. -/
  once : (s.retries.map Retry.key).Nodup

def Respects (s : ModuleSet) : Act → Prop
  | .enroll pid answers => ∀ m ∈ s.entries, answers m = .retryable → (m, pid) ∉ s.retries.map Retry.key
  | .ask i a => a.records = true → ∀ t, s.retries[i]? = some t → s.detached t.pid = false
  | .detach pid => s.closed = true → ∀ m, s.resolvers (m, pid) = none
  | _ => True

theorem Sound.enroll (h : s.Sound) (hok : s.Ok) (pid : UInt32) (answers : Nat → EnrolAnswer) :
    (s.enroll pid answers).1.Sound ↔ s.Respects (.enroll pid answers) := by
  have ho := s.offered_enroll pid answers
  constructor
  · intro hs m hm ha hmem
    have hnodup := hs.once
    rw [enroll_retries] at hnodup
    exact disjoint_of_nodup_append hnodup hmem (mem_started.mpr ⟨hm, ha, rfl⟩)
  · intro hr
    refine ⟨fun k hk => ?_, ?_⟩
    · rw [ho.detached] at hk
      have hne : k.2 ≠ pid := by
        intro heq
        change Function.update s.detached pid false k.2 = true at hk
        rw [heq, Function.update_self] at hk
        cases hk
      change Function.update s.detached pid false k.2 = true at hk
      rw [Function.update_of_ne hne] at hk
      rw [ho.records k fun _ => hne, ho.resolvers k fun _ => hne]
      exact h.released k hk
    · rw [enroll_retries]
      refine h.once.append (nodup_started hok.nodup) fun k hold hnew => ?_
      obtain ⟨hm, ha, hpid⟩ := mem_started.mp hnew
      exact hr k.1 hm ha (hpid ▸ hold)

theorem Sound.retried {k : Nat × UInt32} {a : EnrolAnswer} (h : s.Sound) (hr : Retried s s' k a) :
    s'.Sound ↔ (a.records = true → s.detached k.2 = false) := by
  constructor
  · intro hs hrec
    refine eq_false_of_ne_true fun hdet => hold_records_self s k hrec ?_
    rw [← hr.records]
    exact (hs.released k (hr.detached ▸ hdet)).1
  · intro hcond
    refine ⟨fun k' hk' => ?_, h.once.sublist hr.keys⟩
    rw [hr.detached] at hk'
    rw [hr.records, hr.resolvers]
    cases hrec : a.records with
    | false =>
      rw [hold_of_not_records s k hrec]
      exact h.released k' hk'
    | true =>
      have hne : k' ≠ k := by
        rintro rfl
        exact Bool.false_ne_true ((hcond hrec).symm.trans hk')
      rw [hold_records_of_ne s a hne, hold_resolvers_of_ne s a hne]
      exact h.released k' hk'

theorem Sound.detach (h : s.Sound) (hok : s.Ok) (pid : UInt32) : (s.detach pid).Sound ↔ s.Respects (.detach pid) := by
  constructor
  · intro hs hc m
    have hnone := (hs.released (m, pid) (Function.update_self _ _ _)).2
    change (if m ∈ s.entries ∧ pid = pid then none else s.resolvers (m, pid)) = none at hnone
    rwa [if_neg (by simp [hok.emptied hc])] at hnone
  · intro hr
    refine ⟨fun k hk => ?_, h.once⟩
    change (if _ then none else s.records k) = none ∧ (if _ then none else s.resolvers k) = none
    split
    · exact ⟨rfl, rfl⟩
    · next hnot =>
        by_cases hpid : k.2 = pid
        · have hm : k.1 ∉ s.entries := fun hm => hnot ⟨hm, hpid⟩
          refine ⟨not_ne_iff.mp fun hrec => hm (hok.recorded k hrec), ?_⟩
          cases hc : s.closed with
          | false => exact not_ne_iff.mp fun hres => hm (hok.resolved hc k hres)
          | true => subst hpid; exact hr hc k.1
        · refine h.released k ?_
          change Function.update s.detached pid true k.2 = true at hk
          rwa [Function.update_of_ne hpid] at hk

theorem Sound.step (h : s.Sound) (hok : s.Ok) {act : Act} (ha : s.step act = some s') : s'.Sound ↔ s.Respects act := by
  have hretry : ∀ i, (act = .wake i ∨ act = .halt i ∨ act = .install i) → s'.Sound := by
    intro i hact
    obtain ⟨t, a, -, hr, hasked | ⟨rfl, -⟩⟩ := retried_step (by tauto) ha
    · rcases hact with rfl | rfl | rfl <;> cases hasked
    · exact (h.retried hr).mpr nofun
  cases act with
  | enroll pid answers => cases ha; exact h.enroll hok pid answers
  | wake i => exact iff_of_true (hretry i (.inl rfl)) trivial
  | halt i => exact iff_of_true (hretry i (.inr (.inl rfl))) trivial
  | install i => exact iff_of_true (hretry i (.inr (.inr rfl))) trivial
  | ask i a =>
    obtain ⟨t, b, ht, hr, hasked | ⟨-, hnot⟩⟩ := retried_step (.inr (.inr (.inr ⟨a, rfl⟩))) ha
    · cases hasked
      rw [h.retried hr]
      exact ⟨fun hcond hrec u hu => Option.some.inj (ht.symm.trans hu) ▸ hcond hrec, fun hcond hrec => hcond hrec t ht⟩
    · exact absurd rfl (hnot a)
  | detach pid => cases ha; exact h.detach hok pid
  | close => cases ha; exact iff_of_true ⟨h.released, h.once⟩ trivial
  | closeReturn =>
    simp only [ModuleSet.step] at ha
    split at ha
    · cases ha
      exact iff_of_true ⟨fun k hk => ⟨rfl, (h.released k hk).2⟩, h.once⟩ trivial
    · cases ha
  | exit pid => cases ha; exact iff_of_true ⟨h.released, h.once⟩ trivial

theorem Ok.quiet (h : s.Ok) (hc : s.closed = true) {act : Act} (ha : s.step act = some s') :
    s'.writes = s.writes ∧ s'.handoffRanges = s.handoffRanges := by
  have hentries := h.emptied hc
  have hretry : ∀ i t, s.retries[i]? ≠ some t := fun i t ht => by
    have hmem := h.asking _ (key_mem ht)
    rw [hentries] at hmem
    cases hmem
  cases act with
  | enroll pid answers =>
    cases ha
    rw [ModuleSet.enroll, hentries]
    exact ⟨rfl, rfl⟩
  | wake i | halt i | ask i a | install i =>
    obtain ⟨t, ht, -⟩ := Option.bind_eq_some_iff.mp ha
    exact absurd ht (hretry i t)
  | detach pid => cases ha; exact ⟨rfl, rfl⟩
  | close => cases ha; exact ⟨rfl, rfl⟩
  | closeReturn =>
    simp only [ModuleSet.step] at ha
    split at ha
    · cases ha; exact ⟨rfl, rfl⟩
    · cases ha
  | exit pid => cases ha; exact ⟨rfl, rfl⟩

/-! ## Runs -/

structure Stays (s₀ : ModuleSet) (as : List Act) : Prop where
  sound : ∀ p q s, as = p ++ q → Run Step s₀ p s → s.Sound
  /-- Once `Close` has returned, the maps are left alone. -/
  quiet : ∀ p act q s s', as = p ++ act :: q → Run Step s₀ p s → s.closed = true → Step s act s' →
    s'.writes = s.writes ∧ s'.handoffRanges = s.handoffRanges

/-- A detached process stays detached, no enrolment is pending twice and a closed set is quiet, in
exactly the runs whose steps respect what has gone before. -/
theorem detached_stays {n : Nat} {ids : Nat → UInt32} {as : List Act} {s : ModuleSet}
    (h : Run Step (attach n ids) as s) :
    Stays (attach n ids) as ↔ ∀ p act q t, as = p ++ act :: q → Run Step (attach n ids) p t → t.Respects act := by
  constructor
  · rintro hs p act q t rfl hp
    obtain ⟨t₁, t₂, h₁, hact, -⟩ := h.split
    obtain rfl : t₁ = t := h₁.unique hp
    have hsound₁ : t₁.Sound := hs.sound p (act :: q) t₁ rfl hp
    have hsound₂ : t₂.Sound := hs.sound (p ++ [act]) q t₂ (by rw [append_assoc, singleton_append]) (hp.snoc hact)
    exact (hsound₁.step (ok_run hp) hact).mp hsound₂
  · intro hr
    refine ⟨fun p q t heq hp => ?_, fun p act q t t' heq hp hc hact => (ok_run hp).quiet hc hact⟩
    have hsound : ∀ {p t}, Run Step (attach n ids) p t → (∃ q, as = p ++ q) → t.Sound := by
      intro p t hp
      induction hp with
      | nil => exact fun _ => ⟨fun _ hk => Bool.noConfusion hk, nodup_nil⟩
      | @snoc p t t' act hp hact ih =>
        rintro ⟨q, heq⟩
        rw [append_assoc, singleton_append] at heq
        exact ((ih ⟨_, heq⟩).step (ok_run hp) hact).mpr (hr p act q t heq hp)
    exact hsound hp ⟨q, heq⟩

def pythonId (_ : Nat) : UInt32 := 1

def oneClaim : EnrolAnswer := .attached true ⟨7, [⟨1, 2⟩]⟩ true

/-- The module has nothing to look at twice, and then it has; the process is detached before it exits. -/
def askedAgain : List Act :=
  [.enroll 7 fun _ => .retryable, .wake 0, .ask 0 .retryable, .wake 0, .ask 0 oneClaim, .install 0, .detach 7,
    .exit 7, .close, .closeReturn]

theorem detached_stays_askedAgain : ∃ s, Run Step (attach 1 pythonId) askedAgain s ∧ (s.closed = true ∧ s.writes = 2) ∧
      (Stays (attach 1 pythonId) askedAgain ↔
        ∀ p act q t, askedAgain = p ++ act :: q → Run Step (attach 1 pythonId) p t → t.Respects act) := by
  obtain ⟨s, hr, hs⟩ := @exists_run _ _ step (attach 1 pythonId) askedAgain
    (fun s => s.closed && s.writes == 2) (by decide +kernel)
  rw [Bool.and_eq_true, beq_iff_eq] at hs
  exact ⟨s, hr, hs, detached_stays hr⟩

/-- A process is enrolled twice while it starts up, and is detached; its successor is enrolled in its
name. -/
def enrolledTwice : List Act :=
  [.enroll 7 fun _ => .retryable, .enroll 7 fun _ => .retryable, .detach 7, .exit 7, .wake 0, .ask 0 oneClaim]

/-- Two enrolments are pending, and the module holds the record of a process that was never enrolled. -/
theorem not_detached_stays :
    ∃ s, Run Step (attach 1 pythonId) enrolledTwice s ∧ s.retries.map Retry.key = [(0, 7), (0, 7)] ∧
      s.detached 7 = true ∧ s.records (0, 7) = some 1 ∧ ¬ Stays (attach 1 pythonId) enrolledTwice := by
  obtain ⟨s, hr, hs⟩ := @exists_run _ _ step (attach 1 pythonId) enrolledTwice
    (fun s => s.retries.map Retry.key == [(0, 7), (0, 7)] && (s.detached 7 && s.records (0, 7) == some 1))
    (by decide +kernel)
  rw [Bool.and_eq_true, Bool.and_eq_true, beq_iff_eq, beq_iff_eq] at hs
  refine ⟨s, hr, hs.1, hs.2.1, hs.2.2, fun hstays => ?_⟩
  have hsound : s.Sound := hstays.sound enrolledTwice [] s (append_nil _).symm hr
  have hnone := (hsound.released (0, 7) hs.2.1).1
  rw [hs.2.2] at hnone
  cases hnone

end ModuleSet

end PerfAgent.Unwind
