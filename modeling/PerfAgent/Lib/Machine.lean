import Mathlib.Data.List.Induction

/-!
# Runs of a state machine

A machine that can always take a step is a function `S → A → S`, and its runs are
left folds.  `Along` says that every step of such a run meets a condition on the state
it starts from and on its label; it is decidable whenever the condition is.

A machine whose steps have guards, or that has a choice, is a relation, and `Run` is
the labelled reachability relation over it.  A run restricted to steps that meet a
condition is a `Run` of the restricted relation.

The two invariant rules are the only inductions over runs that a client needs.
-/

universe u v

namespace PerfAgent

open List

variable {S : Type u} {A : Type v}

/-- Every step of the run of `as` from `s` meets `P` where it starts. -/
def Along (step : S → A → S) (P : S → A → Prop) : S → List A → Prop
  | _, [] => True
  | s, a :: as => P s a ∧ Along step P (step s a) as

instance Along.decidable (step : S → A → S) (P : S → A → Prop) [∀ s a, Decidable (P s a)] :
    ∀ s as, Decidable (Along step P s as)
  | _, [] => .isTrue trivial
  | s, a :: as => @instDecidableAnd _ _ _ (Along.decidable step P (step s a) as)

variable {as : List A} {P : S → A → Prop}

theorem along_append {step : S → A → S} {s : S} {as' : List A} :
    Along step P s (as ++ as') ↔ Along step P s as ∧ Along step P (as.foldl step s) as' := by
  induction as generalizing s with
  | nil => simp [Along]
  | cons a as ih => simp [Along, ih, and_assoc]

variable {I : List A → S → Prop}

/-- What holds at first and is kept by every step that meets `P` holds at the end of a
run along `P`; the invariant may speak of the labels so far. -/
theorem Along.invariant {step : S → A → S} {s : S} (h₀ : I [] s)
    (hstep : ∀ as s a, I as s → P s a → I (as ++ [a]) (step s a)) :
    ∀ {as : List A}, Along step P s as → I as (as.foldl step s) := by
  intro as
  induction as using List.reverseRecOn with
  | nil => exact fun _ => h₀
  | append_singleton as a ih =>
    intro h
    obtain ⟨has, ha, -⟩ := along_append.mp h
    rw [foldl_append]
    exact hstep as _ a (ih has) ha

inductive Run (step : S → A → S → Prop) (s₀ : S) : List A → S → Prop
  | /-- Nothing has happened. -/ nil : Run step s₀ [] s₀
  | /-- One more step. -/
    snoc {as : List A} {s s' : S} {a : A} : Run step s₀ as s → step s a s' → Run step s₀ (as ++ [a]) s'

variable {s₀ : S}

theorem Run.invariant {step : S → A → S → Prop} {s : S} (h₀ : I [] s₀)
    (hstep : ∀ as s a s', Run step s₀ as s → I as s → step s a s' → I (as ++ [a]) s') (h : Run step s₀ as s) :
    I as s := by
  induction h with
  | nil => exact h₀
  | snoc hr ha ih => exact hstep _ _ _ _ hr ih ha

theorem Run.last {step : S → A → S → Prop} {s : S} {a : A} (h : Run step s₀ (as ++ [a]) s) :
    ∃ s₁, Run step s₀ as s₁ ∧ step s₁ a s := by
  generalize hl : as ++ [a] = l at h
  cases h with
  | nil => exact absurd hl (by simp)
  | snoc hr ha =>
    obtain ⟨rfl, hs⟩ := append_inj' hl rfl
    cases hs
    exact ⟨_, hr, ha⟩

theorem Run.split {step : S → A → S → Prop} {s₀ s : S} {as as' : List A} {a : A} (h : Run step s₀ (as ++ a :: as') s) :
    ∃ s₁ s₂, Run step s₀ as s₁ ∧ step s₁ a s₂ ∧ Run step s₂ as' s := by
  induction as' using List.reverseRecOn generalizing s with
  | nil =>
    obtain ⟨s₁, hr, ha⟩ := h.last
    exact ⟨s₁, s, hr, ha, .nil⟩
  | append_singleton as' b ih =>
    rw [← cons_append, ← append_assoc] at h
    obtain ⟨s₃, hr, hb⟩ := h.last
    obtain ⟨s₁, s₂, h₁, ha, h₂⟩ := ih hr
    exact ⟨s₁, s₂, h₁, ha, .snoc h₂ hb⟩

theorem Run.record_mono {X : Type*} {record : S → List X} {step : S → A → S → Prop} {s : S}
    (hstep : ∀ s a s', step s a s' → record s <+: record s') (h : Run step s₀ as s) : record s₀ <+: record s := by
  induction h with
  | nil => exact prefix_refl _
  | snoc _ ha ih => exact ih.trans (hstep _ _ _ ha)

theorem Run.mono {step step' : S → A → S → Prop} (hle : ∀ s a s', step s a s' → step' s a s') {s : S}
    (h : Run step s₀ as s) : Run step' s₀ as s := by
  induction h with
  | nil => exact .nil
  | snoc _ ha ih => exact .snoc ih (hle _ _ _ ha)

theorem Run.labelled {step : S → A → S → Prop} {Q : A → Prop} {s : S} (h : Run step s₀ as s) (has : ∀ a ∈ as, Q a) :
    Run (fun s a s' => Q a ∧ step s a s') s₀ as s := by
  induction h with
  | nil => exact .nil
  | snoc _ ha ih =>
    obtain ⟨has, hlast⟩ := forall_mem_append.mp has
    exact .snoc (ih has) ⟨hlast _ mem_cons_self, ha⟩

theorem Run.unique {f : S → A → Option S} {s s' : S} (h : Run (fun s a s' => f s a = some s') s₀ as s)
    (h' : Run (fun s a s' => f s a = some s') s₀ as s') : s = s' := by
  induction h generalizing s' with
  | nil =>
    generalize hl : ([] : List A) = l at h'
    cases h' with
    | nil => rfl
    | snoc => exact absurd hl (by simp)
  | snoc _ ha ih =>
    obtain ⟨s₁, h₁, ha'⟩ := h'.last
    cases ih h₁
    exact Option.some.inj (ha.symm.trans ha')

theorem Run.eq_of_nil {step : S → A → S → Prop} {s : S} (h : Run step s₀ [] s) : s = s₀ := by
  generalize hl : ([] : List A) = l at h
  cases h with
  | nil => rfl
  | snoc => exact absurd hl (by simp)

theorem Run.eq_of_end {step : S → A → S → Prop} {s : S} (hend : ∀ a s₁, ¬step s₀ a s₁) (h : Run step s₀ as s) :
    s = s₀ := by
  induction h with
  | nil => rfl
  | snoc _ ha ih =>
    rw [ih] at ha
    exact absurd ha (hend _ _)

theorem Run.unique_end {step : S → A → S → Prop} {s s' : S} {as' : List A}
    (hsame : ∀ as s a b s₁ s₂, Run step s₀ as s → step s a s₁ → step s b s₂ → s₁ = s₂) (h : Run step s₀ as s)
    (hend : ∀ a s₁, ¬step s a s₁) (h' : Run step s₀ as' s') (hend' : ∀ a s₁, ¬step s' a s₁) : s = s' := by
  -- of two runs, one goes on from the other's state
  have hgoes : ∀ {as s}, Run step s₀ as s → (∃ bs, Run step s bs s') ∨ ∃ bs, Run step s' bs s := by
    intro as s h
    induction h with
    | nil => exact .inl ⟨as', h'⟩
    | @snoc as t u a hrun ha ih =>
      obtain ⟨bs, hbs⟩ | ⟨bs, hbs⟩ := ih
      · cases bs with
        | nil =>
          cases hbs.eq_of_nil
          exact .inr ⟨[a], .snoc .nil ha⟩
        | cons b bs =>
          obtain ⟨t₁, u', hnil, hb, hrest⟩ := @Run.split _ _ step t s' [] bs b hbs
          cases hnil.eq_of_nil
          cases hsame as t a b u u' hrun ha hb
          exact .inl ⟨bs, hrest⟩
      · exact .inr ⟨bs ++ [a], .snoc hbs ha⟩
  obtain ⟨bs, hbs⟩ | ⟨bs, hbs⟩ := hgoes h
  · exact (hbs.eq_of_end hend).symm
  · exact hbs.eq_of_end hend'

theorem Run.both {f : S → A → Option S} {Q : S → A → Prop} {s s' : S}
    (h : Run (fun s a s' => P s a ∧ f s a = some s') s₀ as s)
    (h' : Run (fun s a s' => Q s a ∧ f s a = some s') s₀ as s') :
    Run (fun s a s' => P s a ∧ Q s a ∧ f s a = some s') s₀ as s := by
  induction h generalizing s' with
  | nil => exact .nil
  | snoc hr ha ih =>
    obtain ⟨s₁, h₁, hQ, -⟩ := h'.last
    have hsame := Run.unique (hr.mono fun _ _ _ h => h.2) (h₁.mono fun _ _ _ h => h.2)
    exact .snoc (ih h₁) ⟨ha.1, hsame ▸ hQ, ha.2⟩

/-- Leave out the actions that are not kept: the machine that has not taken them follows the
other one, if a relation between the two says so of each step. -/
theorem Run.project {step : S → A → S → Prop} {s : S} {R : S → S → Prop} (keep : A → Bool) (h₀ : R s₀ s₀)
    (hskip : ∀ {s t a s'}, R s t → keep a = false → step s a s' → R s' t)
    (hkeep : ∀ {s t a s'}, R s t → keep a = true → step s a s' → ∃ t', step t a t' ∧ R s' t') (h : Run step s₀ as s) :
    ∃ t, Run step s₀ (as.filter keep) t ∧ R s t := by
  induction h with
  | nil => exact ⟨s₀, .nil, h₀⟩
  | @snoc as s s' a _ ha ih =>
    obtain ⟨t, ht, hr⟩ := ih
    rw [filter_append]
    cases hk : keep a with
    | false =>
      rw [filter_cons_of_neg (by simp [hk]), filter_nil, append_nil]
      exact ⟨t, ht, hskip hr hk ha⟩
    | true =>
      obtain ⟨t', ha', hr'⟩ := hkeep hr hk ha
      rw [filter_cons_of_pos hk, filter_nil]
      exact ⟨t', .snoc ht ha', hr'⟩

/-- A property of states that each step keeps exactly if it meets a condition: it holds at the end
of a run exactly if every step of the run has met the condition. -/
theorem Run.iff_guarded {step : S → A → S → Prop} {I G : S → Prop} {s : S} (hI : I s₀) (hG : G s₀)
    (hstep : ∀ s a s', I s → step s a s' → I s' ∧ (G s' ↔ G s ∧ P s a)) (h : Run step s₀ as s) :
    G s ↔ Run (fun s a s' => P s a ∧ step s a s') s₀ as s := by
  have hkept : ∀ {as s}, Run step s₀ as s → I s := fun h =>
    h.invariant hI fun _ s a s' _ hs ha => (hstep s a s' hs ha).1
  constructor
  · intro hs
    induction h with
    | nil => exact .nil
    | @snoc as s s' a hr ha ih =>
      obtain ⟨hs, hP⟩ := (hstep s a s' (hkept hr) ha).2.mp hs
      exact .snoc (ih hs) ⟨hP, ha⟩
  · intro hg
    clear h
    induction hg with
    | nil => exact hG
    | @snoc as s s' a hr ha ih =>
      have hr' : Run step s₀ as s := hr.mono fun _ _ _ h => h.2
      exact (hstep s a s' (hkept hr') ha.2).2.mpr ⟨ih, ha.1⟩

theorem run_iff_foldlM {f : S → A → Option S} {s : S} :
    Run (fun s a s' => f s a = some s') s₀ as s ↔ as.foldlM f s₀ = some s := by
  constructor
  · intro h
    induction h with
    | nil => rfl
    | snoc _ ha ih =>
      rw [foldlM_append, ih]
      simpa using ha
  · intro h
    induction as using List.reverseRecOn generalizing s with
    | nil =>
      cases h
      exact .nil
    | append_singleton as a ih =>
      rw [foldlM_append] at h
      obtain ⟨s₁, h₁, h₂⟩ := Option.bind_eq_some_iff.mp h
      exact .snoc (ih h₁) (by simpa using h₂)

theorem guarded_run_iff_foldlM (f : S → A → Option S) (P : S → A → Prop) [∀ s a, Decidable (P s a)] {s : S} :
    Run (fun s a s' => P s a ∧ f s a = some s') s₀ as s ↔
      as.foldlM (fun s a => if P s a then f s a else none) s₀ = some s := by
  rw [← run_iff_foldlM]
  exact ⟨fun h => h.mono fun _ _ _ ha => Option.ite_none_right_eq_some.mpr ha,
    fun h => h.mono fun _ _ _ ha => Option.ite_none_right_eq_some.mp ha⟩

theorem exists_run {f : S → A → Option S} {s₀ : S} {as : List A} {p : S → Bool} (h : (as.foldlM f s₀).any p = true) :
    ∃ s, Run (fun s a s' => f s a = some s') s₀ as s ∧ p s = true := by
  cases hr : as.foldlM f s₀ with
  | none =>
    rw [hr] at h
    cases h
  | some s =>
    rw [hr] at h
    exact ⟨s, run_iff_foldlM.mpr hr, h⟩

theorem exists_guarded_run (f : S → A → Option S) (P : S → A → Prop) [∀ s a, Decidable (P s a)]
    (s₀ : S) (as : List A) (p : S → Bool)
    (h : (as.foldlM (fun s a => if P s a then f s a else none) s₀).any p = true) :
    ∃ s, Run (fun s a s' => P s a ∧ f s a = some s') s₀ as s ∧ p s = true := by
  obtain ⟨s, hrun, hp⟩ := exists_run h
  exact ⟨s, (guarded_run_iff_foldlM f P).mpr (run_iff_foldlM.mp hrun), hp⟩

end PerfAgent
