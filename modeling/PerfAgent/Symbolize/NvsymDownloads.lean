import PerfAgent.Symbolize.NvsymStore

/-!
# One download per build-id

The three tables are looked at one after the other.  A call that has not found the file and not the
refusal may come to the table of the downloads when the only one has ended and is not in it any more.
-/

universe u

namespace PerfAgent.Nvsym

open List Function Option

open Debuginfod (Name)
open Pprof (ascii)

namespace CallAt

variable {C : Type u}

def Leads : CallAt C → Prop
  | .downloading | .downloaded _ | .publishing _ | .removing _ => True
  | _ => False

def Coming : CallAt C → Prop
  | .downloading | .downloaded _ | .publishing _ => True
  | _ => False

def Published : CallAt C → Prop
  | .removing _ | .returned _ => True
  | _ => False

def holds (c : C) : CallAt C → Option (C × Result)
  | .downloaded r | .publishing r | .removing r => some (c, r)
  | .took leader r | .served leader r => some (leader, r)
  | _ => none

/-- What `Path` has returned. -/
def answer : CallAt C → Option Result
  | .returned r | .served _ r => some r
  | .gaveUp _ => some (.error .ctxErr)
  | _ => none

theorem not_leads_of_early {p : CallAt C} (h : p.Early ∨ p.Settled) : ¬p.Leads ∧ p ≠ .downloading := by
  cases p <;> simp_all [CallAt.Early, CallAt.Settled, CallAt.Leads]

theorem early_holds {c : C} {p : CallAt C} (h : p.Early ∨ p.Settled) :
    p.holds c = none ∧ p ≠ .returned (.error .ctxErr) ∧ ∀ leader, p ≠ .gaveUp leader := by
  rcases h with h | h
  · cases p <;> first | exact h.elim | exact ⟨rfl, nofun, nofun⟩
  · refine ⟨?_, ?_, ?_⟩
    · cases p <;> first | exact h.elim | rfl
    · rintro rfl
      exact h
    · rintro leader rfl
      exact h

theorem early_tokens {p : CallAt C} (h : p.Early ∨ p.Settled) :
    (∀ leader r, p ≠ .took leader r) ∧ ¬p.Coming ∧ ∀ leader, p ≠ .waiting leader := by
  rcases h with h | h
  · cases p <;> first | exact h.elim | exact ⟨nofun, id, nofun⟩
  · cases p <;> first | exact h.elim | exact ⟨nofun, id, nofun⟩

theorem not_published_of_early {p : CallAt C} (h : p.Early) : ¬p.Published := by
  cases p <;> first | exact h.elim | exact id

theorem not_missed_of_early {p : CallAt C} (h : p.Early ∨ p.Settled) : ¬p.Missed := by
  rcases h with h | h
  · cases p <;> first | exact h.elim | exact id
  · cases p <;> first | exact h.elim | exact id

end CallAt

namespace Store

variable {C : Type u} [DecidableEq C] {buildID : Name}

/-- The first download that has ended has brought the file, or the refusal. -/
def FirstAnswered (s : Store C) : Prop :=
  ∃ first, s.finished.getLast? = some first ∧ (first.2 = .error .notFound ∨ ∃ path, first.2 = .found path)

def AtRest (buildID : Name) (s : Store C) : Prop :=
  ∀ c, s.step buildID (.go c) = none ∧ s.step buildID (.receive c) = none ∧
    ∀ err, s.step buildID (.download c err) = none

structure OnceForAll (buildID : Name) (s : Store C) : Prop where
  once : ∃ c r, s.started = [c] ∧ s.finished = [(c, r)]
  served : ∀ c leader r, s.calls c = .served leader r → (leader, r) ∈ s.finished
  received : s.AtRest buildID → ∀ c leader, s.calls c ≠ .waiting leader
  live : ∀ c, (s.calls c).answer = some (.error .ctxErr) → s.ctxDone c = true

/-- What a call has not found is not there either when its channel comes into the table. -/
def Fresh (s : Store C) : Action C → Prop
  | .go c => s.calls c = .loadOrStore → s.inflight = none → s.onDisk = false ∧ s.negative = false
  | _ => True

@[simp] theorem calls_setCall_self (s : Store C) (c : C) (p : CallAt C) : (s.setCall c p).calls c = p :=
  update_self ..

theorem calls_setCall_of_ne (s : Store C) {c c' : C} (p : CallAt C) (h : c' ≠ c) :
    (s.setCall c p).calls c' = s.calls c' :=
  update_of_ne h ..

theorem forall_setCall {P : C → CallAt C → Prop} (s : Store C) {c : C} {p : CallAt C} (hself : P c p)
    (h : ∀ c', c' ≠ c → P c' (s.calls c')) (c' : C) : P c' ((s.setCall c p).calls c') := by
  by_cases hc : c' = c
  · rwa [hc, calls_setCall_self]
  · rw [calls_setCall_of_ne s p hc]
    exact h c' hc

/-! ## Who leads -/

structure Led (s : Store C) : Prop where
  leader : ∀ c, (s.calls c).Leads ↔ s.inflight = some c
  started : s.started = (s.inflight.filter fun c => s.calls c = .downloading).toList ++ s.finished.map Prod.fst

theorem Led.initial (dir : Name) (cached : Bool) : Led ({ dir := dir, onDisk := cached } : Store C) where
  leader _ := iff_of_false id nofun
  started := rfl

theorem Led.setCall {s : Store C} (h : s.Led) {c : C} {p : CallAt C} (hleads : p.Leads ↔ (s.calls c).Leads)
    (hfrom : s.calls c ≠ .downloading) (hto : p ≠ .downloading) : (s.setCall c p).Led where
  leader := s.forall_setCall (P := fun c' q => q.Leads ↔ s.inflight = some c') (hleads.trans (h.leader c))
    fun c' _ => h.leader c'
  started := by
    have hsame : (fun c' => decide ((s.setCall c p).calls c' = .downloading)) =
        fun c' => decide (s.calls c' = .downloading) := by
      funext c'
      by_cases hc : c' = c
      · subst hc
        rw [calls_setCall_self, decide_eq_false hfrom, decide_eq_false hto]
      · rw [calls_setCall_of_ne s p hc]
    show s.started = (s.inflight.filter fun c' => decide ((s.setCall c p).calls c' = .downloading)).toList ++ _
    rw [hsame]
    exact h.started

theorem Led.apart {s : Store C} (h : s.Led) {c : C} {p : CallAt C} (hfrom : ¬(s.calls c).Leads) (hto : ¬p.Leads) :
    (s.setCall c p).Led :=
  h.setCall (iff_of_false hto hfrom) (fun hd => hfrom (hd ▸ trivial)) (fun hd => hto (hd ▸ trivial))

theorem Led.step {s s' : Store C} {a : Action C} (h : s.Led) (hmoves : Moves buildID s a s') : s'.Led := by
  cases hmoves with
  | @early _ c p hits prefetching hfrom hto =>
    have hled := h.apart (CallAt.not_leads_of_early (.inl hfrom)).1 (CallAt.not_leads_of_early hto).1
    exact { hled with }
  | missed hfrom hmiss => exact h.apart (by rw [hfrom]; exact id) id
  | @looked c p hfrom hto =>
    refine h.apart (by rw [hfrom]; exact id) ?_
    rcases hto with rfl | hto
    · exact id
    · exact (CallAt.not_leads_of_early (.inr hto)).1
  | ctxEnd c => exact ⟨h.leader, h.started⟩
  | wait hfrom hinflight => exact h.apart (by rw [hfrom]; exact id) id
  | @lead c hfrom hinflight =>
    constructor
    · refine s.forall_setCall (P := fun c' q => q.Leads ↔ some c = some c') (iff_of_true trivial rfl) fun c' hc => ?_
      rw [h.leader c', hinflight]
      exact iff_of_false nofun fun heq => hc (Option.some.inj heq).symm
    · have hstarted := h.started
      rw [hinflight] at hstarted
      show c :: s.started = ((some c).filter fun c' => decide ((s.setCall c .downloading).calls c' = .downloading)).toList ++ _
      rw [filter_some, calls_setCall_self, hstarted]
      rfl
  | @download c err hfrom hctx =>
    have hinflight : s.inflight = some c := (h.leader c).mp (hfrom ▸ trivial)
    constructor
    · exact s.forall_setCall (P := fun c' q => q.Leads ↔ s.inflight = some c') (iff_of_true trivial hinflight)
        fun c' _ => h.leader c'
    · have hstarted := h.started
      rw [hinflight, filter_some, hfrom] at hstarted
      show s.started = (s.inflight.filter fun c' => decide ((s.setCall c _).calls c' = .downloading)).toList ++ _
      rw [hinflight, filter_some, calls_setCall_self, hstarted]
      rfl
  | @store c r hfrom =>
    have hled := h.setCall (c := c) (p := .publishing r) (by rw [hfrom]; exact Iff.rfl) (by rw [hfrom]; nofun) nofun
    exact { hled with }
  | @publish c r hfrom hempty =>
    have hled := h.setCall (c := c) (p := .removing r) (by rw [hfrom]; exact Iff.rfl) (by rw [hfrom]; nofun) nofun
    exact { hled with }
  | @remove c r hfrom =>
    have hinflight : s.inflight = some c := (h.leader c).mp (hfrom ▸ trivial)
    constructor
    · refine s.forall_setCall (P := fun c' q => q.Leads ↔ none = some c') (iff_of_false id nofun) fun c' hc => ?_
      rw [h.leader c', hinflight]
      exact iff_of_false (fun heq => hc (Option.some.inj heq).symm) nofun
    · have hstarted := h.started
      rw [hinflight, filter_some, hfrom] at hstarted
      exact hstarted
  | @take c leader r hfrom hfull =>
    have hled := h.apart (c := c) (p := .took leader r) (by rw [hfrom]; exact id) id
    exact { hled with }
  | @putBack c leader r hfrom hempty =>
    have hled := h.apart (c := c) (p := .served leader r) (by rw [hfrom]; exact id) id
    exact { hled with }
  | giveUp hfrom hctx => exact h.apart (by rw [hfrom]; exact id) id

/-! ## Where a result comes from -/

/-- What a call has, or a channel, is what a download has returned. -/
structure Logged (s : Store C) : Prop where
  held : ∀ c p, (s.calls c).holds c = some p → p ∈ s.finished
  channel : ∀ leader r, s.channel leader = some r → (leader, r) ∈ s.finished
  cut : ∀ leader, (leader, .error .ctxErr) ∈ s.finished → s.ctxDone leader = true
  own : ∀ c, s.calls c = .returned (.error .ctxErr) ∨ (∃ leader, s.calls c = .gaveUp leader) → s.ctxDone c = true
  found : ∀ leader path, (leader, .found path) ∈ s.finished → s.onDisk = true
  refused : ∀ leader, (leader, .error .notFound) ∈ s.finished →
    s.negative = true ∨ s.calls leader = .downloaded (.error .notFound)

omit [DecidableEq C] in
theorem Logged.initial (dir : Name) (cached : Bool) : Logged ({ dir := dir, onDisk := cached } : Store C) where
  held _ _ := nofun
  channel _ _ := nofun
  cut _ := nofun
  own _ h := by rcases h with h | ⟨_, h⟩ <;> cases h
  found _ _ := nofun
  refused _ := nofun

theorem Logged.setCall {s : Store C} (h : s.Logged) {c : C} {p : CallAt C}
    (hheld : ∀ held, p.holds c = some held → held ∈ s.finished)
    (hown : p = .returned (.error .ctxErr) ∨ (∃ leader, p = .gaveUp leader) → s.ctxDone c = true)
    (hfrom : s.calls c ≠ .downloaded (.error .notFound)) : (s.setCall c p).Logged where
  held := s.forall_setCall (P := fun c' q => ∀ held, q.holds c' = some held → held ∈ s.finished) hheld
    fun c' _ => h.held c'
  channel := h.channel
  cut := h.cut
  own := s.forall_setCall (P := fun c' q => q = .returned (.error .ctxErr) ∨ (∃ leader, q = .gaveUp leader) →
    s.ctxDone c' = true) hown fun c' _ => h.own c'
  found := h.found
  refused leader hmem := by
    refine (h.refused leader hmem).imp_right fun hleader => ?_
    have hc : leader ≠ c := by
      rintro rfl
      exact hfrom hleader
    rw [calls_setCall_of_ne s p hc, hleader]

theorem Logged.apart {s : Store C} (h : s.Logged) {c : C} {p : CallAt C} (hfrom : (s.calls c).holds c = none)
    (hto : p.holds c = none ∧ p ≠ .returned (.error .ctxErr) ∧ ∀ leader, p ≠ .gaveUp leader) :
    (s.setCall c p).Logged := by
  refine h.setCall (fun held hheld => ?_) (fun hown => ?_) (fun heq => ?_)
  · rw [hto.1] at hheld
    cases hheld
  · rcases hown with hown | ⟨leader, hown⟩
    · exact absurd hown hto.2.1
    · exact absurd hown (hto.2.2 leader)
  · rw [heq] at hfrom
    cases hfrom

theorem Logged.setChannel {s : Store C} (h : s.Logged) {leader : C} {x : Option Result}
    (hx : ∀ r, x = some r → (leader, r) ∈ s.finished) :
    Logged { s with channel := update s.channel leader x } := by
  refine { h with channel := fun leader' r hr => ?_ }
  by_cases hc : leader' = leader
  · subst hc
    exact hx r ((update_self leader' x s.channel).symm.trans hr)
  · exact h.channel leader' r ((update_of_ne hc x s.channel).symm.trans hr)

theorem Logged.step {s s' : Store C} {a : Action C} (h : s.Logged) (hmoves : Moves buildID s a s') : s'.Logged := by
  cases hmoves with
  | @early _ c p hits prefetching hfrom hto =>
    have hlogged := h.apart (CallAt.early_holds (.inl hfrom)).1 (CallAt.early_holds (c := c) hto)
    exact { hlogged with }
  | missed hfrom hmiss => exact h.apart (by rw [hfrom]; rfl) ⟨rfl, nofun, nofun⟩
  | @looked c p hfrom hto =>
    refine h.apart (by rw [hfrom]; rfl) ?_
    rcases hto with rfl | hto
    · exact ⟨rfl, nofun, nofun⟩
    · exact CallAt.early_holds (.inr hto)
  | ctxEnd c =>
    have hdone : ∀ c', s.ctxDone c' = true → update s.ctxDone c true c' = true := by
      intro c' hc'
      by_cases hc : c' = c
      · rw [hc, update_self]
      · rw [update_of_ne hc, hc']
    exact { h with
      cut := fun leader hmem => hdone _ (h.cut leader hmem)
      own := fun c' hown => hdone _ (h.own c' hown) }
  | wait hfrom hinflight => exact h.apart (by rw [hfrom]; rfl) ⟨rfl, nofun, nofun⟩
  | @lead c hfrom hinflight =>
    have hlogged := h.apart (c := c) (p := .downloading) (by rw [hfrom]; rfl) ⟨rfl, nofun, nofun⟩
    exact { hlogged with }
  | @download c err hfrom hctx =>
    have hnew : ∀ {held}, held ∈ s.finished → held ∈ (c, downloadResult buildID err) :: s.finished := mem_cons_of_mem _
    constructor
    · exact s.forall_setCall (P := fun c' q => ∀ held, q.holds c' = some held → held ∈ _ :: s.finished)
        (by rintro _ ⟨⟩; exact mem_cons_self) fun c' _ held hheld => hnew (h.held c' held hheld)
    · exact fun leader r hr => hnew (h.channel leader r hr)
    · intro leader hmem
      rcases mem_cons.mp hmem with heq | hmem
      · obtain ⟨rfl, hresult⟩ := Prod.ext_iff.mp heq
        cases err with
        | none => cases hresult
        | some err =>
          cases hresult
          exact hctx rfl
      · exact h.cut leader hmem
    · exact s.forall_setCall (P := fun c' q => q = .returned (.error .ctxErr) ∨ (∃ leader, q = .gaveUp leader) →
        s.ctxDone c' = true) (by rintro (hown | ⟨_, hown⟩) <;> cases hown) fun c' _ => h.own c'
    · intro leader path hmem
      show (s.onDisk || decide (err = none)) = true
      rcases mem_cons.mp hmem with heq | hmem
      · cases err with
        | none => simp
        | some err => cases (Prod.ext_iff.mp heq).2
      · rw [h.found leader path hmem, Bool.true_or]
    · intro leader hmem
      rcases mem_cons.mp hmem with heq | hmem
      · obtain ⟨rfl, hresult⟩ := Prod.ext_iff.mp heq
        exact .inr ((calls_setCall_self s leader _).trans (congrArg _ hresult.symm))
      · refine (h.refused leader hmem).imp_right fun hleader => ?_
        have hc : leader ≠ c := by
          rintro rfl
          rw [hfrom] at hleader
          cases hleader
        exact (calls_setCall_of_ne s _ hc).trans hleader
  | @store c r hfrom =>
    have hheld : (c, r) ∈ s.finished := h.held c _ (by rw [hfrom]; rfl)
    constructor
    · exact s.forall_setCall (P := fun c' q => ∀ held, q.holds c' = some held → held ∈ s.finished)
        (by rintro _ ⟨⟩; exact hheld) fun c' _ => h.held c'
    · exact h.channel
    · exact h.cut
    · exact s.forall_setCall (P := fun c' q => q = .returned (.error .ctxErr) ∨ (∃ leader, q = .gaveUp leader) →
        s.ctxDone c' = true) (by rintro (hown | ⟨_, hown⟩) <;> cases hown) fun c' _ => h.own c'
    · exact h.found
    · intro leader hmem
      show (s.negative || decide (r = .error .notFound)) = true ∨ _
      rcases h.refused leader hmem with hnegative | hleader
      · exact .inl (by rw [hnegative, Bool.true_or])
      · by_cases hc : leader = c
        · subst hc
          cases hfrom.symm.trans hleader
          exact .inl (by simp)
        · exact .inr ((calls_setCall_of_ne s _ hc).trans hleader)
  | @publish c r hfrom hempty =>
    have hheld : (c, r) ∈ s.finished := h.held c _ (by rw [hfrom]; rfl)
    have hlogged := h.setCall (c := c) (p := .removing r) (by rintro _ ⟨⟩; exact hheld)
      (by rintro (hown | ⟨_, hown⟩) <;> cases hown) (by rw [hfrom]; nofun)
    exact hlogged.setChannel (by rintro _ ⟨⟩; exact hheld)
  | @remove c r hfrom =>
    have hheld : (c, r) ∈ s.finished := h.held c _ (by rw [hfrom]; rfl)
    have hlogged := h.setCall (c := c) (p := .returned r) nofun (by
      rintro (hown | ⟨_, hown⟩)
      · cases hown
        exact h.cut c hheld
      · cases hown) (by rw [hfrom]; nofun)
    exact { hlogged with }
  | @take c leader r hfrom hfull =>
    have hlogged := h.setCall (c := c) (p := .took leader r) (by rintro _ ⟨⟩; exact h.channel leader r hfull)
      (by rintro (hown | ⟨_, hown⟩) <;> cases hown) (by rw [hfrom]; nofun)
    exact hlogged.setChannel nofun
  | @putBack c leader r hfrom hempty =>
    have hheld : (leader, r) ∈ s.finished := h.held c _ (by rw [hfrom]; rfl)
    have hlogged := h.setCall (c := c) (p := .served leader r) (by rintro _ ⟨⟩; exact hheld)
      (by rintro (hown | ⟨_, hown⟩) <;> cases hown) (by rw [hfrom]; nofun)
    exact hlogged.setChannel (by rintro _ ⟨⟩; exact hheld)
  | @giveUp c leader hfrom hctx =>
    exact h.setCall nofun (fun _ => hctx) (by rw [hfrom]; nofun)

/-! ## The channels -/

/-- The result is on its way, in the channel, or with a waiter that puts it back. -/
def Alive (s : Store C) (leader : C) : Prop :=
  (s.calls leader).Coming ∨ s.channel leader ≠ none ∨ ∃ c r, s.calls c = .took leader r

structure Tokens (s : Store C) : Prop where
  unpublished : ∀ leader, ¬(s.calls leader).Published → s.channel leader = none ∧ ∀ c r, s.calls c ≠ .took leader r
  held : ∀ c leader r, s.calls c = .took leader r →
    s.channel leader = none ∧ ∀ c' r', s.calls c' = .took leader r' → c' = c
  alive : ∀ leader, ((s.calls leader).Leads ∨ ∃ c, s.calls c = .waiting leader) → s.Alive leader

omit [DecidableEq C] in
theorem Tokens.initial (dir : Name) (cached : Bool) : Tokens ({ dir := dir, onDisk := cached } : Store C) where
  unpublished _ _ := ⟨rfl, nofun⟩
  held _ _ _ := nofun
  alive _ h := by rcases h with h | ⟨_, h⟩ <;> cases h

theorem Tokens.setCall {s : Store C} (h : s.Tokens) {c : C} {p : CallAt C}
    (hfrom : ∀ leader r, s.calls c ≠ .took leader r) (hto : ∀ leader r, p ≠ .took leader r)
    (hpublished : (s.calls c).Published → p.Published) (hcoming : (s.calls c).Coming → p.Coming)
    (hleads : p.Leads → p.Coming ∨ (s.calls c).Leads) (hwaits : ∀ leader, p = .waiting leader → s.Alive leader) :
    (s.setCall c p).Tokens := by
  have hholder : ∀ {c' leader r}, (s.setCall c p).calls c' = .took leader r → s.calls c' = .took leader r := by
    intro c' leader r hheld
    by_cases hc : c' = c
    · subst hc
      rw [calls_setCall_self] at hheld
      exact absurd hheld (hto leader r)
    · rwa [calls_setCall_of_ne s p hc] at hheld
  have halive : ∀ leader, s.Alive leader → (s.setCall c p).Alive leader := by
    rintro leader (hcome | hfull | ⟨c', r, hheld⟩)
    · by_cases hc : leader = c
      · subst hc
        exact .inl (by rw [calls_setCall_self]; exact hcoming hcome)
      · exact .inl (by rw [calls_setCall_of_ne s p hc]; exact hcome)
    · exact .inr (.inl hfull)
    · have hc : c' ≠ c := by
        rintro rfl
        exact hfrom leader r hheld
      exact .inr (.inr ⟨c', r, (calls_setCall_of_ne s p hc).trans hheld⟩)
  constructor
  · intro leader hleader
    have hbefore : ¬(s.calls leader).Published := by
      intro hbefore
      apply hleader
      by_cases hc : leader = c
      · subst hc
        rw [calls_setCall_self]
        exact hpublished hbefore
      · rwa [calls_setCall_of_ne s p hc]
    obtain ⟨hempty, hnone⟩ := h.unpublished leader hbefore
    exact ⟨hempty, fun c' r hheld => hnone c' r (hholder hheld)⟩
  · intro c' leader r hheld
    obtain ⟨hempty, hone⟩ := h.held c' leader r (hholder hheld)
    exact ⟨hempty, fun c'' r' hheld' => hone c'' r' (hholder hheld')⟩
  · rintro leader (hlead | ⟨c', hwait⟩)
    · by_cases hc : leader = c
      · subst hc
        rw [calls_setCall_self] at hlead
        rcases hleads hlead with hcome | hlead
        · exact .inl (by rwa [calls_setCall_self])
        · exact halive leader (h.alive leader (.inl hlead))
      · rw [calls_setCall_of_ne s p hc] at hlead
        exact halive leader (h.alive leader (.inl hlead))
    · by_cases hc : c' = c
      · subst hc
        rw [calls_setCall_self] at hwait
        exact halive leader (hwaits leader hwait)
      · rw [calls_setCall_of_ne s p hc] at hwait
        exact halive leader (h.alive leader (.inr ⟨c', hwait⟩))

theorem wanted_of_setCall {s : Store C} {c leader : C} {p : CallAt C} (hleads : leader = c → ¬p.Leads)
    (hwaits : p ≠ .waiting leader)
    (h : ((s.setCall c p).calls leader).Leads ∨ ∃ c', (s.setCall c p).calls c' = .waiting leader) :
    (s.calls leader).Leads ∨ ∃ c', s.calls c' = .waiting leader := by
  rcases h with hlead | ⟨c', hwait⟩
  · by_cases hc : leader = c
    · rw [hc, calls_setCall_self] at hlead
      exact absurd hlead (hleads hc)
    · rw [calls_setCall_of_ne s p hc] at hlead
      exact .inl hlead
  · by_cases hc : c' = c
    · subst hc
      rw [calls_setCall_self] at hwait
      exact absurd hwait hwaits
    · rw [calls_setCall_of_ne s p hc] at hwait
      exact .inr ⟨c', hwait⟩

theorem Tokens.publish {s : Store C} (h : s.Tokens) {c : C} {r : Result} (hfrom : s.calls c = .publishing r) :
    Tokens { s.setCall c (.removing r) with channel := update s.channel c (some r) } := by
  obtain ⟨-, hnone⟩ := h.unpublished c (by rw [hfrom]; exact id)
  have hholder : ∀ {c' leader r'}, (s.setCall c (.removing r)).calls c' = .took leader r' →
      s.calls c' = .took leader r' ∧ leader ≠ c := by
    intro c' leader r' hheld
    have hheld' : s.calls c' = .took leader r' := by
      by_cases hc : c' = c
      · subst hc
        rw [calls_setCall_self] at hheld
        cases hheld
      · rwa [calls_setCall_of_ne s _ hc] at hheld
    refine ⟨hheld', ?_⟩
    rintro rfl
    exact hnone c' r' hheld'
  constructor
  · intro leader hleader
    have hc : leader ≠ c := by
      rintro rfl
      apply hleader
      show ((s.setCall leader _).calls leader).Published
      rw [calls_setCall_self]
      trivial
    rw [show Store.calls _ leader = s.calls leader from calls_setCall_of_ne s _ hc] at hleader
    obtain ⟨hempty, hnone'⟩ := h.unpublished leader hleader
    exact ⟨(update_of_ne hc ..).trans hempty, fun c' r' hheld => hnone' c' r' (hholder hheld).1⟩
  · intro c' leader r' hheld
    obtain ⟨hheld', hc⟩ := hholder hheld
    obtain ⟨hempty, hone⟩ := h.held c' leader r' hheld'
    exact ⟨(update_of_ne hc ..).trans hempty, fun c'' r'' hheld'' => hone c'' r'' (hholder hheld'').1⟩
  · intro leader hlead
    by_cases hc : leader = c
    · subst hc
      exact .inr (.inl (by
        show update s.channel leader (some r) leader ≠ none
        rw [update_self]
        nofun))
    · have hlead' := wanted_of_setCall (s := s) (c := c) (p := .removing r) (fun heq => absurd heq hc) nofun hlead
      rcases h.alive leader hlead' with hcome | hfull | ⟨c', r', hheld⟩
      · exact .inl (by rwa [show Store.calls _ leader = s.calls leader from calls_setCall_of_ne s _ hc])
      · exact .inr (.inl (by rwa [show Store.channel _ leader = s.channel leader from update_of_ne hc ..]))
      · have hc' : c' ≠ c := by
          rintro rfl
          rw [hfrom] at hheld
          cases hheld
        exact .inr (.inr ⟨c', r', (calls_setCall_of_ne s _ hc').trans hheld⟩)

theorem Tokens.take {s : Store C} (h : s.Tokens) {c leader : C} {r : Result} (hfrom : s.calls c = .waiting leader)
    (hfull : s.channel leader = some r) :
    Tokens { s.setCall c (.took leader r) with channel := update s.channel leader none } := by
  have hpublished : (s.calls leader).Published := by
    by_contra hnot
    rw [(h.unpublished leader hnot).1] at hfull
    cases hfull
  have hnone : ∀ c' r', s.calls c' ≠ .took leader r' := by
    intro c' r' hheld
    rw [(h.held c' leader r' hheld).1] at hfull
    cases hfull
  have hholder : ∀ {c' leader' r'}, (s.setCall c (.took leader r)).calls c' = .took leader' r' →
      c' = c ∧ leader' = leader ∨ s.calls c' = .took leader' r' ∧ leader' ≠ leader := by
    intro c' leader' r' hheld
    by_cases hc : c' = c
    · subst hc
      rw [calls_setCall_self] at hheld
      cases hheld
      exact .inl ⟨rfl, rfl⟩
    · rw [calls_setCall_of_ne s _ hc] at hheld
      refine .inr ⟨hheld, ?_⟩
      rintro rfl
      exact hnone c' r' hheld
  constructor
  · intro leader' hleader
    have hbefore : ¬(s.calls leader').Published := by
      by_cases hc : leader' = c
      · subst hc
        rw [hfrom]
        exact id
      · rwa [show Store.calls _ leader' = s.calls leader' from calls_setCall_of_ne s _ hc] at hleader
    have hne : leader' ≠ leader := by
      rintro rfl
      exact hbefore hpublished
    obtain ⟨hempty, hnone'⟩ := h.unpublished leader' hbefore
    refine ⟨(update_of_ne hne ..).trans hempty, fun c' r' hheld => ?_⟩
    rcases hholder hheld with ⟨-, heq⟩ | ⟨hheld, -⟩
    · exact hne heq
    · exact hnone' c' r' hheld
  · intro c' leader' r' hheld
    rcases hholder hheld with ⟨rfl, rfl⟩ | ⟨hheld, hne⟩
    · refine ⟨update_self .., fun c'' r'' hheld'' => ?_⟩
      rcases hholder hheld'' with ⟨rfl, -⟩ | ⟨-, hne⟩
      · rfl
      · exact absurd rfl hne
    · obtain ⟨hempty, hone⟩ := h.held c' leader' r' hheld
      refine ⟨(update_of_ne hne ..).trans hempty, fun c'' r'' hheld'' => ?_⟩
      rcases hholder hheld'' with ⟨-, heq⟩ | ⟨hheld'', -⟩
      · exact absurd heq hne
      · exact hone c'' r'' hheld''
  · intro leader' hlead
    by_cases hne : leader' = leader
    · subst hne
      exact .inr (.inr ⟨c, r, calls_setCall_self s c _⟩)
    · have hlead' := wanted_of_setCall (s := s) (c := c) (p := .took leader r) (fun _ => id) nofun hlead
      have hother : ∀ c', s.calls c' ≠ .waiting leader → (s.setCall c (.took leader r)).calls c' = s.calls c' := by
        intro c' hc'
        refine calls_setCall_of_ne s _ ?_
        rintro rfl
        exact hc' hfrom
      rcases h.alive leader' hlead' with hcome | hfull' | ⟨c', r', hheld⟩
      · refine .inl ?_
        rwa [show Store.calls _ leader' = s.calls leader' from hother leader' fun heq => by rw [heq] at hcome; exact hcome]
      · exact .inr (.inl (by rwa [show Store.channel _ leader' = s.channel leader' from update_of_ne hne ..]))
      · exact .inr (.inr ⟨c', r', (hother c' (by rw [hheld]; nofun)).trans hheld⟩)

theorem Tokens.putBack {s : Store C} (h : s.Tokens) {c leader : C} {r : Result} (hfrom : s.calls c = .took leader r) :
    Tokens { s.setCall c (.served leader r) with channel := update s.channel leader (some r) } := by
  have hpublished : (s.calls leader).Published := by
    by_contra hnot
    exact (h.unpublished leader hnot).2 c r hfrom
  have hholder : ∀ {c' leader' r'}, (s.setCall c (.served leader r)).calls c' = .took leader' r' →
      s.calls c' = .took leader' r' ∧ leader' ≠ leader := by
    intro c' leader' r' hheld
    by_cases hc : c' = c
    · subst hc
      rw [calls_setCall_self] at hheld
      cases hheld
    · rw [calls_setCall_of_ne s _ hc] at hheld
      refine ⟨hheld, ?_⟩
      rintro rfl
      exact hc ((h.held c leader' r hfrom).2 c' r' hheld)
  have hother : ∀ c', (∀ r', s.calls c' ≠ .took leader r') → (s.setCall c (.served leader r)).calls c' = s.calls c' := by
    intro c' hc'
    refine calls_setCall_of_ne s _ ?_
    rintro rfl
    exact hc' r hfrom
  constructor
  · intro leader' hleader
    have hbefore : ¬(s.calls leader').Published := by
      intro hbefore
      apply hleader
      rwa [show Store.calls _ leader' = s.calls leader' from
        hother leader' fun r' heq => by rw [heq] at hbefore; exact hbefore]
    have hne : leader' ≠ leader := by
      rintro rfl
      exact hbefore hpublished
    obtain ⟨hempty, hnone⟩ := h.unpublished leader' hbefore
    exact ⟨(update_of_ne hne ..).trans hempty, fun c' r' hheld => hnone c' r' (hholder hheld).1⟩
  · intro c' leader' r' hheld
    obtain ⟨hheld, hne⟩ := hholder hheld
    obtain ⟨hempty, hone⟩ := h.held c' leader' r' hheld
    exact ⟨(update_of_ne hne ..).trans hempty, fun c'' r'' hheld'' => hone c'' r'' (hholder hheld'').1⟩
  · intro leader' hlead
    by_cases hne : leader' = leader
    · subst hne
      exact .inr (.inl (by
        show update s.channel leader' (some r) leader' ≠ none
        rw [update_self]
        nofun))
    · have hlead' := wanted_of_setCall (s := s) (c := c) (p := .served leader r) (fun _ => id) nofun hlead
      rcases h.alive leader' hlead' with hcome | hfull | ⟨c', r', hheld⟩
      · refine .inl ?_
        rwa [show Store.calls _ leader' = s.calls leader' from
          hother leader' fun r' heq => by rw [heq] at hcome; exact hcome]
      · exact .inr (.inl (by rwa [show Store.channel _ leader' = s.channel leader' from update_of_ne hne ..]))
      · refine .inr (.inr ⟨c', r', (hother c' fun r'' heq => hne ?_).trans hheld⟩)
        cases hheld.symm.trans heq
        rfl

theorem Tokens.apart {s : Store C} (h : s.Tokens) {c : C} {p : CallAt C}
    (hfrom : ∀ leader r, s.calls c ≠ .took leader r) (hbefore : ¬(s.calls c).Published)
    (hcoming : ¬(s.calls c).Coming) (hto : ∀ leader r, p ≠ .took leader r) (hleads : ¬p.Leads)
    (hwaits : ∀ leader, p ≠ .waiting leader) : (s.setCall c p).Tokens :=
  h.setCall hfrom hto (absurd · hbefore) (absurd · hcoming) (absurd · hleads) fun leader heq => absurd heq (hwaits leader)

theorem Tokens.step {s s' : Store C} {a : Action C} (h : s.Tokens) (hled : s.Led) (hmoves : Moves buildID s a s') : s'.Tokens := by
  cases hmoves with
  | @early _ c p hits prefetching hfrom hto =>
    obtain ⟨hnone, hcoming, -⟩ := CallAt.early_tokens (.inl hfrom)
    obtain ⟨hnone', -, hwaits⟩ := CallAt.early_tokens hto
    have htokens := h.apart hnone (CallAt.not_published_of_early hfrom) hcoming hnone' (CallAt.not_leads_of_early hto).1 hwaits
    exact { htokens with }
  | missed hfrom hmiss =>
    exact h.apart (by rw [hfrom]; nofun) (by rw [hfrom]; exact id) (by rw [hfrom]; exact id) nofun id nofun
  | @looked c p hfrom hto =>
    have hto' : (∀ leader r, p ≠ .took leader r) ∧ ¬p.Leads ∧ ∀ leader, p ≠ .waiting leader := by
      rcases hto with rfl | hto
      · exact ⟨nofun, id, nofun⟩
      · obtain ⟨hnone, -, hwaits⟩ := CallAt.early_tokens (.inr hto)
        exact ⟨hnone, (CallAt.not_leads_of_early (.inr hto)).1, hwaits⟩
    exact h.apart (by rw [hfrom]; nofun) (by rw [hfrom]; exact id) (by rw [hfrom]; exact id) hto'.1 hto'.2.1 hto'.2.2
  | ctxEnd c => exact ⟨h.unpublished, h.held, h.alive⟩
  | @wait c leader hfrom hinflight =>
    refine h.setCall (by rw [hfrom]; nofun) nofun (by rw [hfrom]; exact False.elim) (by rw [hfrom]; exact False.elim)
      False.elim ?_
    rintro _ ⟨⟩
    exact h.alive leader (.inl ((hled.leader leader).mpr hinflight))
  | @lead c hfrom hinflight =>
    have htokens := h.setCall (c := c) (p := .downloading) (by rw [hfrom]; nofun) nofun
      (by rw [hfrom]; exact False.elim) (by rw [hfrom]; exact False.elim) .inl nofun
    exact { htokens with }
  | @download c err hfrom hctx =>
    have htokens := h.setCall (c := c) (p := .downloaded (downloadResult buildID err)) (by rw [hfrom]; nofun) nofun
      (by rw [hfrom]; exact False.elim) (fun _ => trivial) .inl nofun
    exact { htokens with }
  | @store c r hfrom =>
    have htokens := h.setCall (c := c) (p := .publishing r) (by rw [hfrom]; nofun) nofun
      (by rw [hfrom]; exact False.elim) (fun _ => trivial) .inl nofun
    exact { htokens with }
  | publish hfrom hempty => exact h.publish hfrom
  | @remove c r hfrom =>
    have htokens := h.setCall (c := c) (p := .returned r) (by rw [hfrom]; nofun) nofun (fun _ => trivial)
      (by rw [hfrom]; exact False.elim) False.elim nofun
    exact { htokens with }
  | take hfrom hfull => exact h.take hfrom hfull
  | putBack hfrom hempty => exact h.putBack hfrom
  | giveUp hfrom hctx =>
    exact h.apart (by rw [hfrom]; nofun) (by rw [hfrom]; exact id) (by rw [hfrom]; exact id) nofun id nofun

theorem Tokens.not_coming {s : Store C} (h : s.Tokens) (hrest : s.AtRest buildID) (c : C) : ¬(s.calls c).Coming := by
  intro hcoming
  obtain ⟨hgo, -, hdownload⟩ := hrest c
  cases hc : s.calls c with
  | downloading =>
    have := hdownload none
    rw [Store.step, if_pos ⟨hc, nofun⟩] at this
    cases this
  | downloaded r =>
    rw [Store.step, go, hc] at hgo
    cases hgo
  | publishing r =>
    have hempty := (h.unpublished c (by rw [hc]; exact id)).1
    rw [Store.step, go, hc] at hgo
    dsimp only at hgo
    rw [if_pos hempty] at hgo
    cases hgo
  | _ =>
    rw [hc] at hcoming
    exact hcoming

theorem Tokens.not_waiting {s : Store C} (h : s.Tokens) (hrest : s.AtRest buildID) (c leader : C) :
    s.calls c ≠ .waiting leader := by
  intro hwait
  rcases h.alive leader (.inr ⟨c, hwait⟩) with hcome | hfull | ⟨c', r, hheld⟩
  · exact h.not_coming hrest leader hcome
  · obtain ⟨r, hr⟩ := ne_none_iff_exists'.mp hfull
    have hreceive := (hrest c).2.1
    rw [Store.step] at hreceive
    dsimp only at hreceive
    rw [hwait] at hreceive
    dsimp only at hreceive
    rw [hr] at hreceive
    cases hreceive
  · have hgo := (hrest c').1
    rw [Store.step, go, hheld] at hgo
    dsimp only at hgo
    rw [if_pos (h.held c' leader r hheld).1] at hgo
    cases hgo

/-! ## What has been seen -/

/-- A file that was not there at first, or a refusal, is from a download. -/
structure Seen (cached : Bool) (s : Store C) : Prop where
  fromDisk : cached = true → s.onDisk = true ∧ ∀ c, ¬(s.calls c).Missed
  onDisk : s.onDisk = true → cached = true ∨ s.finished ≠ []
  negative : s.negative = true → s.finished ≠ []

omit [DecidableEq C] in
theorem Seen.initial (dir : Name) (cached : Bool) : Seen cached ({ dir := dir, onDisk := cached } : Store C) where
  fromDisk h := ⟨h, fun _ => id⟩
  onDisk h := .inl h
  negative := nofun

theorem Seen.setCall {cached : Bool} {s : Store C} (h : s.Seen cached) {c : C} {p : CallAt C}
    (hto : p.Missed → (s.calls c).Missed ∨ s.onDisk = false) : (s.setCall c p).Seen cached := by
  refine { h with fromDisk := fun hcached => ⟨(h.fromDisk hcached).1, ?_⟩ }
  refine s.forall_setCall (P := fun _ q => ¬q.Missed) (fun hmissed => ?_) fun c' _ => (h.fromDisk hcached).2 c'
  rcases hto hmissed with hmissed | hmiss
  · exact (h.fromDisk hcached).2 c hmissed
  · rw [(h.fromDisk hcached).1] at hmiss
    cases hmiss

theorem Seen.step {cached : Bool} {s s' : Store C} {a : Action C} (h : s.Seen cached) (hlogged : s.Logged)
    (hmoves : Moves buildID s a s') : s'.Seen cached := by
  cases hmoves with
  | @early _ c p hits prefetching hfrom hto =>
    have hseen := h.setCall (c := c) (p := p) fun hmissed => absurd hmissed (CallAt.not_missed_of_early hto)
    exact { hseen with }
  | missed hfrom hmiss => exact h.setCall fun _ => .inr hmiss
  | looked hfrom hto => exact h.setCall fun _ => .inl (hfrom ▸ trivial)
  | ctxEnd c => exact ⟨h.fromDisk, h.onDisk, h.negative⟩
  | wait hfrom hinflight => exact h.setCall False.elim
  | @lead c hfrom hinflight =>
    have hseen := h.setCall (c := c) (p := .downloading) False.elim
    exact { hseen with }
  | @download c err hfrom hctx =>
    have hseen := h.setCall (c := c) (p := .downloaded (downloadResult buildID err)) False.elim
    refine ⟨fun hcached => ⟨?_, (hseen.fromDisk hcached).2⟩, fun _ => .inr nofun, fun _ => nofun⟩
    show (s.onDisk || _) = true
    rw [(h.fromDisk hcached).1, Bool.true_or]
  | @store c r hfrom =>
    have hseen := h.setCall (c := c) (p := .publishing r) False.elim
    have hheld : (c, r) ∈ s.finished := hlogged.held c _ (by rw [hfrom]; rfl)
    exact ⟨hseen.fromDisk, hseen.onDisk, fun _ => ne_nil_of_mem hheld⟩
  | @publish c r hfrom hempty =>
    have hseen := h.setCall (c := c) (p := .removing r) False.elim
    exact { hseen with }
  | @remove c r hfrom =>
    have hseen := h.setCall (c := c) (p := .returned r) False.elim
    exact { hseen with }
  | @take c leader r hfrom hfull =>
    have hseen := h.setCall (c := c) (p := .took leader r) False.elim
    exact { hseen with }
  | @putBack c leader r hfrom hempty =>
    have hseen := h.setCall (c := c) (p := .served leader r) False.elim
    exact { hseen with }
  | giveUp hfrom hctx => exact h.setCall False.elim

/-! ## Runs -/

structure Ok (cached : Bool) (s : Store C) : Prop where
  led : s.Led
  logged : s.Logged
  tokens : s.Tokens
  seen : s.Seen cached

section Runs

variable {dir : Name} {cached : Bool} {as : List (Action C)} {s s' : Store C} {a : Action C}

theorem Ok.step (h : s.Ok cached) (hstep : s.step buildID a = some s') : s'.Ok cached :=
  have hmoves := moves_of_step hstep
  ⟨h.led.step hmoves, h.logged.step hmoves, h.tokens.step h.led hmoves, h.seen.step h.logged hmoves⟩

theorem ok_of_run (h : Run (fun s a s' => s.step buildID a = some s') { dir := dir, onDisk := cached } as s) :
    s.Ok cached :=
  h.invariant (I := fun _ s => s.Ok cached)
    ⟨.initial dir cached, .initial dir cached, .initial dir cached, .initial dir cached⟩
    fun _ _ _ _ _ hs hstep => hs.step hstep

theorem started_of_moves (h : Moves buildID s a s') : s'.started = s.started ∨
      ∃ c, a = .go c ∧ s.calls c = .loadOrStore ∧ s.inflight = none ∧ s'.started = c :: s.started := by
  cases h with
  | @lead c hfrom hinflight => exact .inr ⟨c, rfl, hfrom, hinflight, rfl⟩
  | _ => exact .inl rfl

theorem finished_of_moves (h : Moves buildID s a s') :
    s'.finished = s.finished ∨ ∃ c r, s.calls c = .downloading ∧ s'.finished = (c, r) :: s.finished := by
  cases h with
  | @download c err hfrom hctx => exact .inr ⟨c, _, hfrom, rfl⟩
  | _ => exact .inl rfl

theorem Ok.seen_of_answered (h : s.Ok cached) {c : C} {r : Result} (hfinished : s.finished = [(c, r)])
    (hanswered : s.FirstAnswered) (hinflight : s.inflight = none) : s.onDisk = true ∨ s.negative = true := by
  obtain ⟨first, hfirst, hanswer⟩ := hanswered
  rw [hfinished] at hfirst
  cases hfirst
  have hmem : (c, r) ∈ s.finished := hfinished ▸ mem_cons_self
  rcases hanswer with rfl | ⟨path, rfl⟩
  · rcases h.logged.refused c hmem with hnegative | hleader
    · exact .inr hnegative
    · have := (h.led.leader c).mp (hleader ▸ trivial)
      rw [hinflight] at this
      cases this
  · exact .inl (h.logged.found c path hmem)

theorem Ok.once_step (h : s.Ok cached) (honce : s.FirstAnswered → ∃ c r, s.started = [c] ∧ s.finished = [(c, r)])
    (hfresh : s.Fresh a) (hstep : s.step buildID a = some s') (hanswered : s'.FirstAnswered) :
    ∃ c r, s'.started = [c] ∧ s'.finished = [(c, r)] := by
  have hmoves := moves_of_step hstep
  rcases finished_of_moves hmoves with hsame | ⟨c, r, hdownloading, hfinished⟩
  · have hbefore : s.FirstAnswered := by
      unfold FirstAnswered at hanswered ⊢
      rwa [hsame] at hanswered
    obtain ⟨c, r, hstarted, hfinished⟩ := honce hbefore
    rcases started_of_moves hmoves with hsame' | ⟨c', rfl, hfrom, hinflight, -⟩
    · exact ⟨c, r, hsame'.trans hstarted, hsame.trans hfinished⟩
    · obtain ⟨hondisk, hnegative⟩ := hfresh hfrom hinflight
      rcases h.seen_of_answered hfinished hbefore hinflight with heq | heq
      · rw [hondisk] at heq
        cases heq
      · rw [hnegative] at heq
        cases heq
  · have hinflight : s.inflight = some c := (h.led.leader c).mp (hdownloading ▸ trivial)
    have hbegun := h.led.started
    rw [hinflight, filter_some, hdownloading] at hbegun
    have hstarted : s'.started = s.started := by
      rcases started_of_moves hmoves with hsame | ⟨c', rfl, hfrom, hnone, -⟩
      · exact hsame
      · rw [hinflight] at hnone
        cases hnone
    cases hrest : s.finished with
    | nil =>
      rw [hrest] at hbegun hfinished
      exact ⟨c, r, hstarted.trans hbegun, hfinished⟩
    | cons p rest =>
      -- the one that has just ended is not the first one
      have hbefore : s.FirstAnswered := by
        unfold FirstAnswered at hanswered ⊢
        rwa [hfinished, hrest, getLast?_cons_cons, ← hrest] at hanswered
      obtain ⟨c', r', hone, -⟩ := honce hbefore
      rw [hone, hrest] at hbegun
      cases hbegun

theorem once_of_fresh
    (h : Run (fun s a s' => s.Fresh a ∧ s.step buildID a = some s') { dir := dir, onDisk := cached } as s) :
    s.FirstAnswered → ∃ c r, s.started = [c] ∧ s.finished = [(c, r)] := by
  refine h.invariant (I := fun _ s => s.FirstAnswered → ∃ c r, s.started = [c] ∧ s.finished = [(c, r)]) ?_ ?_
  · rintro ⟨first, hfirst, -⟩
    cases hfirst
  · intro as s a s' hrun honce hstep
    exact (ok_of_run (hrun.mono fun _ _ _ => And.right)).once_step honce hstep.1 hstep.2

theorem Ok.stale_step (h : s.Ok cached) (hstale : ¬s.Fresh a) (hstep : s.step buildID a = some s') :
    2 ≤ s'.started.length := by
  cases a with
  | go c =>
    simp only [Fresh, Classical.not_imp, not_and_or, Bool.not_eq_false] at hstale
    obtain ⟨hfrom, hinflight, hthere⟩ := hstale
    have hfinished : s.finished ≠ [] := by
      rcases hthere with hondisk | hnegative
      · refine (h.seen.onDisk hondisk).resolve_left fun hcached => ?_
        exact (h.seen.fromDisk hcached).2 c (hfrom ▸ trivial)
      · exact h.seen.negative hnegative
    have hstarted : s.started = s.finished.map Prod.fst := by
      rw [h.led.started, hinflight]
      rfl
    rcases started_of_moves (moves_of_step hstep) with hsame | ⟨c', -, -, -, hmore⟩
    · rw [Store.step, go, hfrom] at hstep
      dsimp only at hstep
      rw [hinflight] at hstep
      cases hstep
      exact absurd hsame (cons_ne_self _ _)
    · rw [hmore, length_cons, hstarted, length_map]
      exact Nat.succ_le_succ (length_pos_of_ne_nil hfinished)
  | _ => exact absurd trivial hstale

theorem fresh_or_twice (h : Run (fun s a s' => s.step buildID a = some s') { dir := dir, onDisk := cached } as s) :
    Run (fun s a s' => s.Fresh a ∧ s.step buildID a = some s') { dir := dir, onDisk := cached } as s ∨
      2 ≤ s.started.length := by
  induction h with
  | nil => exact .inl .nil
  | @snoc as s s' a hrun hstep ih =>
    rcases ih with hfresh | htwice
    · by_cases ha : s.Fresh a
      · exact .inl (.snoc hfresh ⟨ha, hstep⟩)
      · exact .inr ((ok_of_run hrun).stale_step ha hstep)
    · refine .inr (htwice.trans ?_)
      rcases started_of_moves (moves_of_step hstep) with hsame | ⟨c, -, -, -, hmore⟩
      · rw [hsame]
      · rw [hmore]
        exact Nat.le_succ _

end Runs

/-- Where the first download brings an answer it is the only one, and all that waited have its result, if
and only if no call comes to the table of the downloads with a look at the file and the refusals
that has been overtaken. -/
theorem onceForAll_iff (buildID dir : Name) (cached : Bool) {as : List (Action C)} {s : Store C}
    (hrun : Run (fun s a s' => s.step buildID a = some s') { dir := dir, onDisk := cached } as s)
    (hanswered : s.FirstAnswered) :
    s.OnceForAll buildID ↔
      Run (fun s a s' => s.Fresh a ∧ s.step buildID a = some s') { dir := dir, onDisk := cached } as s := by
  have hok := ok_of_run hrun
  constructor
  · intro honce
    refine (fresh_or_twice hrun).resolve_right fun htwice => ?_
    obtain ⟨c, r, hstarted, -⟩ := honce.once
    rw [hstarted] at htwice
    exact absurd htwice (by simp)
  · intro hfresh
    obtain ⟨first, r, hstarted, hfinished⟩ := once_of_fresh hfresh hanswered
    refine ⟨⟨first, r, hstarted, hfinished⟩, fun c leader r' hserved => ?_, fun hrest => hok.tokens.not_waiting hrest,
      fun c hanswer => ?_⟩
    · exact hok.logged.held c _ (by rw [hserved]; rfl)
    · cases hc : s.calls c with
      | returned r' =>
        rw [hc] at hanswer
        cases hanswer
        exact hok.logged.own c (.inl hc)
      | gaveUp leader => exact hok.logged.own c (.inr ⟨leader, hc⟩)
      | served leader r' =>
        -- the one download has not ended with its context
        rw [hc] at hanswer
        cases hanswer
        have hmem : (leader, Result.error .ctxErr) ∈ s.finished := hok.logged.held c _ (by rw [hc]; rfl)
        obtain ⟨first', hfirst, hwhich⟩ := hanswered
        rw [hfinished] at hmem hfirst
        cases hfirst
        cases mem_singleton.mp hmem
        rcases hwhich with hwhich | ⟨path, hwhich⟩ <;> cases hwhich
      | _ =>
        rw [hc] at hanswer
        cases hanswer

def lookFor (c : Nat) : List (Action Nat) :=
  [.call c (.path (ascii "/usr/lib/libcuda.so.1")), .go c, .go c]

def fetchBy (c : Nat) (err : Option FetchError) : List (Action Nat) :=
  [.download c err, .go c, .go c, .go c]

theorem onceForAll_waiter :
    ∃ s : Store Nat, Run (fun s a s' => s.step (ascii "abcd") a = some s') { dir := ascii "cache", onDisk := false }
      (lookFor 0 ++ lookFor 1 ++ [.go 0, .go 1] ++ fetchBy 0 none ++ [.receive 1, .go 1]) s ∧
        s.OnceForAll (ascii "abcd") := by
  obtain ⟨s, hrun, hs⟩ := @exists_guarded_run _ _ (fun (s : Store Nat) a => s.step (ascii "abcd") a)
    (fun s a => s.Fresh a) (fun s a => by cases a <;> unfold Fresh <;> infer_instance)
    { dir := ascii "cache", onDisk := false }
    (lookFor 0 ++ lookFor 1 ++ [.go 0, .go 1] ++ fetchBy 0 none ++ [.receive 1, .go 1])
    (fun s => decide (s.finished = [(0, .found (dst (ascii "abcd")))])) (by decide +kernel)
  have hfinished := of_decide_eq_true hs
  have hanswered : s.FirstAnswered := ⟨_, by rw [hfinished]; rfl, .inr ⟨_, rfl⟩⟩
  have hall : Run (fun (s : Store Nat) a s' => s.step (ascii "abcd") a = some s') _ _ s := hrun.mono fun _ _ _ h => h.2
  exact ⟨s, hall, (onceForAll_iff (ascii "abcd") (ascii "cache") false hall hanswered).mpr hrun⟩

/-- Two calls are overtaken between their looks and the table.  One of them downloads again, and
what it returns when its context ends is the answer to the other. -/
theorem not_onceForAll_overtaken :
    ∃ s : Store Nat, Run (fun s a s' => s.step (ascii "abcd") a = some s') { dir := ascii "cache", onDisk := false }
      (lookFor 0 ++ lookFor 1 ++ lookFor 2 ++ [.go 0] ++ fetchBy 0 none ++ [.go 1, .go 2, .ctxEnd 1] ++
        fetchBy 1 (some .ctxErr) ++ [.receive 2, .go 2]) s ∧
      s.FirstAnswered ∧ s.started = [1, 0] ∧ s.calls 2 = .served 1 (.error .ctxErr) ∧ s.ctxDone 2 = false ∧
        ¬s.OnceForAll (ascii "abcd") := by
  obtain ⟨s, hrun, hs⟩ := @exists_run _ _ (fun (s : Store Nat) a => s.step (ascii "abcd") a)
    { dir := ascii "cache", onDisk := false }
    (lookFor 0 ++ lookFor 1 ++ lookFor 2 ++ [.go 0] ++ fetchBy 0 none ++ [.go 1, .go 2, .ctxEnd 1] ++
      fetchBy 1 (some .ctxErr) ++ [.receive 2, .go 2])
    (fun s => decide (s.finished.getLast? = some (0, .found (dst (ascii "abcd"))) ∧ s.started = [1, 0] ∧
      s.calls 2 = .served 1 (.error .ctxErr) ∧ s.ctxDone 2 = false)) (by decide +kernel)
  obtain ⟨hfirst, hstarted, hserved, hlive⟩ := of_decide_eq_true hs
  refine ⟨s, hrun, ⟨_, hfirst, .inr ⟨_, rfl⟩⟩, hstarted, hserved, hlive, fun honce => ?_⟩
  obtain ⟨c, r, hone, -⟩ := honce.once
  rw [hstarted] at hone
  cases hone

/-- In every run, also where a download fails or is made again: one call downloads at a time, what is served to a
waiter is the result of a download that has ended, and a file only if it is there, the error of a context reaches a
call whose own context has ended or one that waited for such a call, and when nothing moves any more nobody waits or
downloads. -/
theorem downloads_answered (buildID dir : Name) (cached : Bool) {as : List (Action C)} {s : Store C}
    (hrun : Run (fun s a s' => s.step buildID a = some s') { dir := dir, onDisk := cached } as s) :
    (∀ c c', (s.calls c).Leads → (s.calls c').Leads → c = c') ∧ s.started.length ≤ s.finished.length + 1 ∧
      (∀ c leader r, s.calls c = .served leader r → (leader, r) ∈ s.finished) ∧
      (∀ c leader path, s.calls c = .served leader (.found path) → s.onDisk = true) ∧
      (∀ c, s.calls c = .returned (.error .ctxErr) ∨ (∃ leader, s.calls c = .gaveUp leader) → s.ctxDone c = true) ∧
      (∀ c leader, s.calls c = .served leader (.error .ctxErr) → s.ctxDone leader = true) ∧
      (s.AtRest buildID → ∀ c, ¬(s.calls c).Coming ∧ ∀ leader, s.calls c ≠ .waiting leader) := by
  have hok := ok_of_run hrun
  have hserved : ∀ c leader r, s.calls c = .served leader r → (leader, r) ∈ s.finished :=
    fun c leader r h => hok.logged.held c _ (by rw [h]; rfl)
  refine ⟨fun c c' hc hc' => ?_, ?_, hserved, fun c leader path h => hok.logged.found leader path (hserved _ _ _ h),
    hok.logged.own, fun c leader h => hok.logged.cut leader (hserved _ _ _ h),
    fun hrest c => ⟨hok.tokens.not_coming hrest c, hok.tokens.not_waiting hrest c⟩⟩
  · have hleader := hok.led.leader
    exact Option.some.inj (((hleader c).mp hc).symm.trans ((hleader c').mp hc'))
  · rw [hok.led.started, length_append, length_map, Nat.add_comm]
    exact Nat.add_le_add_left Option.length_toList_le _

theorem downloads_answered_waiter :
    ∃ s : Store Nat, s.calls 1 = .served 0 (.found (dst (ascii "abcd"))) ∧ s.onDisk = true := by
  obtain ⟨s, hrun, hs⟩ := @exists_run _ _ (fun (s : Store Nat) a => s.step (ascii "abcd") a)
    { dir := ascii "cache", onDisk := false }
    (lookFor 0 ++ lookFor 1 ++ [.go 0, .go 1] ++ fetchBy 0 none ++ [.receive 1, .go 1])
    (fun s => decide (s.calls 1 = .served 0 (.found (dst (ascii "abcd"))))) (by decide +kernel)
  have hserved := of_decide_eq_true hs
  exact ⟨s, hserved, (downloads_answered _ _ false hrun).2.2.2.1 1 0 _ hserved⟩

end Store

end PerfAgent.Nvsym
