import PerfAgent.Lib.Machine
import PerfAgent.Unwind.TableStore

/-!
# A held table is an installed table

Two of the invariants of the store are about the installs in flight and hold in every run: an
install that is claimed is being performed by exactly one caller, and a caller that sleeps
waits for such an install or for a broadcast that is on its way.

That a table which some process holds is in the maps of the walker needs more.  The last
reference to a table is dropped before the lock for its eviction is taken, and in between
another caller may be told that the table is there; and a reference is shared by all calls for
the same table and process, so that one of them can drop it under another.  `Calm` is the
condition on a step that neither happens.
-/

namespace PerfAgent.Unwind

open Function AssocMap

/-! ## Conditions -/

namespace Phase

def install : Phase → Option UInt64
  | .installing tableID _ => some tableID
  | .failed tableID _ => some tableID
  | .finished tableID _ _ => some tableID
  | _ => none

def reference : Phase → Option (UInt64 × UInt32)
  | .acquiring tableID pid => some (tableID, pid)
  | .waiting tableID pid => some (tableID, pid)
  | .installing tableID pid => some (tableID, pid)
  | .failed tableID pid => some (tableID, pid)
  | .finished tableID pid true => some (tableID, pid)
  | .announcing returns => returns
  | _ => none

def evicts : Phase → Option UInt64
  | .releasing tableID => some tableID
  | _ => none

end Phase

/-- A reference is dropped when no other call counts on it, and a table is evicted when there is
still no reference to it. -/
def Calm {n : Nat} (s : Callers n) (a : Fin n × Section) : Prop :=
  match a.2 with
  | .undo => ∀ x ∈ (s.phase a.1).reference, ∀ c, c ≠ a.1 → (s.phase c).reference ≠ some x
  | .release tableID pid => ∀ c, (s.phase c).reference ≠ some (tableID, pid)
  | .evict _ _ => ∀ tableID ∈ (s.phase a.1).evicts, RefcountTable.pids s.store.rc tableID = ∅
  | _ => True

instance {n : Nat} (s : Callers n) (a : Fin n × Section) : Decidable (Calm s a) :=
  match a with
  | (c, .undo) => Option.decidableForallMem (s.phase c).reference
  | (_, .release _ _) => inferInstanceAs (Decidable (∀ _, _))
  | (c, .evict _ _) => Option.decidableForallMem (s.phase c).evicts
  | (_, .acquire _ _) => .isTrue trivial
  | (_, .beginInstall) => .isTrue trivial
  | (_, .build _ _) => .isTrue trivial
  | (_, .endInstall) => .isTrue trivial
  | (_, .broadcast) => .isTrue trivial

variable (m : Tables)

def Tables.Present (tableID : UInt64) : Prop :=
  ∃ rows, m.cfiRules.find? tableID = some rows ∧ m.cfiLengths.find? tableID = some (UInt32.ofNat rows.length)

def Tables.SameAt (m' : Tables) (tableID : UInt64) : Prop :=
  m'.cfiRules.find? tableID = m.cfiRules.find? tableID ∧ m'.cfiLengths.find? tableID = m.cfiLengths.find? tableID

variable {tableID : UInt64}

theorem Tables.Present.of_sameAt {m m' : Tables} (h : m.Present tableID) (hs : m.SameAt m' tableID) :
    m'.Present tableID := by
  obtain ⟨rows, hrules, hlen⟩ := h
  exact ⟨rows, hs.1.trans hrules, hs.2.trans hlen⟩

theorem populateCFI_spec (tableID : UInt64) (entries : List CFIEntry) (fails : Option KernelCall) :
    (∀ t, t ≠ tableID → m.SameAt (m.populateCFI tableID entries fails).1 t) ∧
      ((m.populateCFI tableID entries fails).2 = none → (m.populateCFI tableID entries fails).1.Present tableID) := by
  have hput : ∀ t, t ≠ tableID → (m.cfiRules.put tableID entries).find? t = m.cfiRules.find? t :=
    fun t ht => find?_put_of_ne _ _ ht
  unfold Tables.populateCFI
  split
  · exact ⟨fun _ _ => ⟨rfl, rfl⟩, nofun⟩
  · split
    · exact ⟨fun _ _ => ⟨rfl, rfl⟩, nofun⟩
    · dsimp only
      split
      · exact ⟨fun _ _ => ⟨rfl, rfl⟩, nofun⟩
      · exact ⟨fun _ _ => ⟨rfl, rfl⟩, nofun⟩
      · exact ⟨fun _ _ => ⟨rfl, rfl⟩, nofun⟩
      · exact ⟨fun t ht => ⟨hput t ht, rfl⟩, nofun⟩
      · refine ⟨fun t ht => ⟨hput t ht, find?_put_of_ne _ _ ht⟩, fun _ => ?_⟩
        exact ⟨entries, find?_put_self _ _ _, find?_put_self _ _ _⟩

/-! ## What a step can do -/

inductive Move {n : Nat} (s : Callers n) (c : Fin n) : Section → Callers n → Prop
  | acquires {tableID : UInt64} {pid : UInt32} : s.phase c = .idle →
      Move s c (.acquire tableID pid)
        ({ s with store := { s.store with rc := insert (tableID, pid) s.store.rc } }.setPhase c
          (.acquiring tableID pid))
  | finds {tableID : UInt64} {pid : UInt32} : s.phase c = .acquiring tableID pid →
      tableID ∈ s.store.installed →
        Move s c .beginInstall ({ s with held := insert (tableID, pid) s.held }.setPhase c .idle)
  | claims {tableID : UInt64} {pid : UInt32} : s.phase c = .acquiring tableID pid →
      tableID ∉ s.store.installed → tableID ∉ s.store.inflight → Move s c .beginInstall
          ({ s with store := { s.store with inflight := insert tableID s.store.inflight } }.setPhase c
            (.installing tableID pid))
  | sleeps {tableID : UInt64} {pid : UInt32} : s.phase c = .acquiring tableID pid →
      tableID ∈ s.store.inflight → Move s c .beginInstall (s.setPhase c (.waiting tableID pid))
  | fails {tableID : UInt64} {pid : UInt32} {tables : Tables} {compiled : Option (List CFIEntry)}
      {call : Option KernelCall} : s.phase c = .installing tableID pid →
      (∀ t, t ≠ tableID → s.store.tables.SameAt tables t) → Move s c (.build compiled call)
          ({ s with store := { s.store with tables := tables } }.setPhase c (.failed tableID pid))
  | builds {tableID : UInt64} {pid : UInt32} {tables : Tables} {compiled : Option (List CFIEntry)}
      {call : Option KernelCall} : s.phase c = .installing tableID pid →
      (∀ t, t ≠ tableID → s.store.tables.SameAt tables t) → tables.Present tableID → Move s c (.build compiled call)
          ({ s with store := { s.store with tables := tables } }.setPhase c (.finished tableID pid true))
  | undoes {tableID : UInt64} {pid : UInt32} : s.phase c = .failed tableID pid →
      Move s c .undo ({ s with store := { s.store with rc := s.store.rc.erase (tableID, pid) } }.setPhase c
          (.finished tableID pid false))
  | ends {tableID : UInt64} {pid : UInt32} {ok : Bool} : s.phase c = .finished tableID pid ok →
      Move s c .endInstall ({ s with store := s.store.endInstall tableID ok }.setPhase c
          (.announcing (if ok then some (tableID, pid) else none)))
  | wakes {returns : Option (UInt64 × UInt32)} : s.phase c = .announcing returns →
      Move s c .broadcast
        ({ s with
           phase := fun c => Callers.woken (s.phase c)
           held := returns.elim s.held fun x => insert x s.held }.setPhase c .idle)
  | releases {tableID : UInt64} {pid : UInt32} {p : Phase} : s.phase c = .idle →
      p = .idle ∨ p = .releasing tableID → Move s c (.release tableID pid)
          ({ s with
             store := { s.store with rc := s.store.rc.erase (tableID, pid) }
             held := s.held.erase (tableID, pid) }.setPhase c p)
  | evicts {tableID : UInt64} {rulesDeleted lengthsDeleted : Bool} : s.phase c = .releasing tableID →
      Move s c (.evict rulesDeleted lengthsDeleted)
        ({ s with store := s.store.evict tableID rulesDeleted lengthsDeleted }.setPhase c (.announcing none))

theorem move_of_step {n : Nat} {s s' : Callers n} {a : Fin n × Section} (h : s.step a = some s') :
    Move s a.1 a.2 s' := by
  obtain ⟨c, act⟩ := a
  unfold Callers.step at h
  dsimp only at h
  split at h
  · next hp =>
    cases h
    exact .acquires hp
  · next hp =>
    split at h
    · next hin =>
      cases h
      exact .finds hp hin
    · next hout =>
      split at h
      · next hfree =>
        cases h
        exact .claims hp hout hfree
      · next hbusy =>
        cases h
        exact .sleeps hp (not_not.mp hbusy)
  · next hp =>
    cases h
    exact .fails hp fun _ _ => ⟨rfl, rfl⟩
  · next entries call tableID pid hp =>
    obtain ⟨hother, hpresent⟩ := populateCFI_spec s.store.tables _ entries call
    split at h
    · next hok =>
      cases h
      exact .builds hp hother (hpresent hok)
    · cases h
      exact .fails hp hother
  · next hp =>
    cases h
    exact .undoes hp
  · next hp =>
    cases h
    exact .ends hp
  · next hp =>
    cases h
    exact .wakes hp
  · next hp =>
    cases h
    refine .releases hp ?_
    split
    · exact .inl rfl
    · exact .inr rfl
  · next hp =>
    cases h
    exact .evicts hp
  · cases h

variable {pid : UInt32}

/-! ## Installs in flight -/

section Installs

variable {n : Nat} {s s' : Callers n} {c : Fin n} {a : Section}

/-- An install that is claimed is performed by one caller, and a sleeper will be woken. -/
structure Claimed (s : Callers n) : Prop where
  inflight : ∀ c t, (s.phase c).install = some t → t ∈ s.store.inflight
  performed : ∀ t ∈ s.store.inflight, ∃ c, (s.phase c).install = some t
  unique : ∀ c c' t, (s.phase c).install = some t → (s.phase c').install = some t → c = c'
  absent : ∀ t ∈ s.store.inflight, t ∉ s.store.installed
  watched : ∀ c t p, s.phase c = .waiting t p → t ∈ s.store.inflight ∨ ∃ c' r, s.phase c' = .announcing r

theorem setPhase_phase (s : Callers n) (c c' : Fin n) (p : Phase) :
    (s.setPhase c p).phase c' = if c' = c then p else s.phase c' := update_apply ..

theorem Claimed.keep (h : Claimed s) {p : Phase} (hphase : s'.phase = update s.phase c p)
    (hinflight : s'.store.inflight = s.store.inflight)
    (hinstalled : s'.store.installed ⊆ s.store.installed)
    (hinstall : p.install = (s.phase c).install) (hann : ∀ r, s.phase c ≠ .announcing r)
    (hwait : ∀ t q, p = .waiting t q → t ∈ s.store.inflight) : Claimed s' := by
  have hsame : ∀ c', (s'.phase c').install = (s.phase c').install := by
    intro c'
    rw [hphase, update_apply]
    split
    · next heq => rw [heq, hinstall]
    · rfl
  refine ⟨?_, ?_, ?_, ?_, ?_⟩
  · intro c' t ht
    rw [hinflight]
    exact h.inflight c' t (hsame c' ▸ ht)
  · intro t ht
    rw [hinflight] at ht
    obtain ⟨c', hc'⟩ := h.performed t ht
    exact ⟨c', (hsame c').trans hc'⟩
  · intro c₁ c₂ t h₁ h₂
    exact h.unique c₁ c₂ t (hsame c₁ ▸ h₁) (hsame c₂ ▸ h₂)
  · intro t ht hin
    rw [hinflight] at ht
    exact h.absent t ht (hinstalled hin)
  · intro c' t q hc'
    rw [hinflight]
    rw [hphase, update_apply] at hc'
    split at hc'
    · exact .inl (hwait t q hc')
    · obtain hin | ⟨c₁, r, hr⟩ := h.watched c' t q hc'
      · exact .inl hin
      · refine .inr ⟨c₁, r, ?_⟩
        rw [hphase, update_of_ne]
        · exact hr
        · rintro rfl
          exact hann r hr

theorem Claimed.claims (h : Claimed s) (hp : s.phase c = .acquiring tableID pid) (hout : tableID ∉ s.store.installed)
    (hfree : tableID ∉ s.store.inflight) :
    Claimed ({ s with store := { s.store with inflight := insert tableID s.store.inflight } }.setPhase c
      (.installing tableID pid)) := by
  have hnone : ∀ c', (s.phase c').install ≠ some tableID := fun c' h' => hfree (h.inflight c' _ h')
  refine ⟨?_, ?_, ?_, ?_, ?_⟩
  · intro c' t ht
    rw [setPhase_phase] at ht
    split at ht
    · cases ht
      exact Finset.mem_insert_self _ _
    · exact Finset.mem_insert_of_mem (h.inflight c' t ht)
  · intro t ht
    obtain rfl | ht := Finset.mem_insert.mp ht
    · exact ⟨c, by rw [setPhase_phase, if_pos rfl]; rfl⟩
    · obtain ⟨c', hc'⟩ := h.performed t ht
      have hne : c' ≠ c := by
        rintro rfl
        rw [hp] at hc'
        cases hc'
      exact ⟨c', by rw [setPhase_phase, if_neg hne]; exact hc'⟩
  · intro c₁ c₂ t h₁ h₂
    rw [setPhase_phase] at h₁ h₂
    split at h₁
    · next heq₁ =>
      split at h₂
      · next heq₂ => rw [heq₁, heq₂]
      · cases h₁
        exact absurd h₂ (hnone c₂)
    · split at h₂
      · cases h₂
        exact absurd h₁ (hnone c₁)
      · exact h.unique c₁ c₂ t h₁ h₂
  · intro t ht
    obtain rfl | ht := Finset.mem_insert.mp ht
    · exact hout
    · exact h.absent t ht
  · intro c' t q hc'
    rw [setPhase_phase] at hc'
    split at hc'
    · cases hc'
    · obtain hin | ⟨c₁, r, hr⟩ := h.watched c' t q hc'
      · exact .inl (Finset.mem_insert_of_mem hin)
      · refine .inr ⟨c₁, r, ?_⟩
        rw [setPhase_phase, if_neg]
        · exact hr
        · rintro rfl
          rw [hp] at hr
          cases hr

theorem Claimed.ends (h : Claimed s) {ok : Bool} {r : Option (UInt64 × UInt32)}
    (hp : s.phase c = .finished tableID pid ok) :
    Claimed ({ s with store := s.store.endInstall tableID ok }.setPhase c (.announcing r)) := by
  have hc : (s.phase c).install = some tableID := by rw [hp]; rfl
  have hne : ∀ {c'}, c' ≠ c → (s.phase c').install ≠ some tableID :=
    fun hne h' => hne (h.unique _ _ _ h' hc)
  refine ⟨?_, ?_, ?_, ?_, ?_⟩
  · intro c' t ht
    rw [setPhase_phase] at ht
    split at ht
    · cases ht
    · next hcc =>
      refine Finset.mem_erase.mpr ⟨?_, h.inflight c' t ht⟩
      rintro rfl
      exact hne hcc ht
  · intro t ht
    obtain ⟨htne, ht⟩ := Finset.mem_erase.mp ht
    obtain ⟨c', hc'⟩ := h.performed t ht
    refine ⟨c', ?_⟩
    rw [setPhase_phase, if_neg]
    · exact hc'
    · rintro rfl
      rw [hc] at hc'
      exact htne (Option.some.inj hc').symm
  · intro c₁ c₂ t h₁ h₂
    rw [setPhase_phase] at h₁ h₂
    split at h₁
    · cases h₁
    · split at h₂
      · cases h₂
      · exact h.unique c₁ c₂ t h₁ h₂
  · intro t ht hin
    obtain ⟨htne, hold⟩ := Finset.mem_erase.mp ht
    cases ok with
    | false => exact h.absent t hold hin
    | true => exact h.absent t hold ((Finset.mem_insert.mp hin).resolve_left htne)
  · intro c' t q hc'
    exact .inr ⟨c, r, by rw [setPhase_phase, if_pos rfl]⟩

theorem woken_install (p : Phase) : (Callers.woken p).install = p.install := by
  cases p <;> rfl

theorem woken_ne_waiting (p : Phase) (t : UInt64) (q : UInt32) : Callers.woken p ≠ .waiting t q := by
  cases p <;> nofun

theorem Claimed.wakes (h : Claimed s) {returns : Option (UInt64 × UInt32)} {held : Finset (UInt64 × UInt32)}
    (hp : s.phase c = .announcing returns) :
    Claimed ({ s with phase := fun c => Callers.woken (s.phase c), held := held }.setPhase c .idle) := by
  have hsame : ∀ c', ((({ s with phase := fun c => Callers.woken (s.phase c), held := held } :
      Callers n).setPhase c .idle).phase c').install = (s.phase c').install := by
    intro c'
    rw [setPhase_phase]
    split
    · next heq =>
      rw [heq, hp]
      rfl
    · exact woken_install _
  refine ⟨?_, ?_, ?_, h.absent, ?_⟩
  · intro c' t ht
    exact h.inflight c' t (hsame c' ▸ ht)
  · intro t ht
    obtain ⟨c', hc'⟩ := h.performed t ht
    exact ⟨c', (hsame c').trans hc'⟩
  · intro c₁ c₂ t h₁ h₂
    exact h.unique c₁ c₂ t (hsame c₁ ▸ h₁) (hsame c₂ ▸ h₂)
  · intro c' t q hc'
    rw [setPhase_phase] at hc'
    split at hc'
    · cases hc'
    · exact absurd hc' (woken_ne_waiting _ t q)

theorem Claimed.move (h : Claimed s) (hm : Move s c a s') : Claimed s' := by
  cases hm with
  | acquires hp => exact h.keep rfl rfl subset_rfl (by rw [hp]; rfl) (by rw [hp]; nofun) nofun
  | finds hp => exact h.keep rfl rfl subset_rfl (by rw [hp]; rfl) (by rw [hp]; nofun) nofun
  | claims hp hout hfree => exact h.claims hp hout hfree
  | sleeps hp hin =>
    refine h.keep rfl rfl subset_rfl (by rw [hp]; rfl) (by rw [hp]; nofun) ?_
    intro t q heq
    cases heq
    exact hin
  | fails hp => exact h.keep rfl rfl subset_rfl (by rw [hp]; rfl) (by rw [hp]; nofun) nofun
  | builds hp => exact h.keep rfl rfl subset_rfl (by rw [hp]; rfl) (by rw [hp]; nofun) nofun
  | undoes hp => exact h.keep rfl rfl subset_rfl (by rw [hp]; rfl) (by rw [hp]; nofun) nofun
  | ends hp => exact h.ends hp
  | wakes hp => exact h.wakes hp
  | releases hp hphase =>
    refine h.keep rfl rfl subset_rfl ?_ (by rw [hp]; nofun) ?_
    · rw [hp]
      obtain rfl | rfl := hphase <;> rfl
    · obtain rfl | rfl := hphase <;> nofun
  | evicts hp =>
    exact h.keep rfl rfl (Finset.erase_subset _ _) (by rw [hp]; rfl) (by rw [hp]; nofun) nofun

theorem claimed_init : Claimed ({} : Callers n) := ⟨nofun, nofun, nofun, nofun, nofun⟩

end Installs

/-! ## References and rows -/

section References

variable {n : Nat} {s s' : Callers n} {c : Fin n} {a : Section}

/-- What is counted on is there: a reference for every call that needs it, and the rows for
every table that a caller has been told, or will be told, is installed. -/
structure Backed (s : Callers n) : Prop where
  refs : ∀ c x, (s.phase c).reference = some x → x ∈ s.store.rc
  held : ∀ x ∈ s.held, x ∈ s.store.rc ∧ x.1 ∈ s.store.installed
  rows : ∀ t ∈ s.store.installed, s.store.tables.Present t
  built : ∀ c t p, s.phase c = .finished t p true → s.store.tables.Present t
  told : ∀ c x, s.phase c = .announcing (some x) → x.1 ∈ s.store.installed

theorem backed_init : Backed ({} : Callers n) := ⟨nofun, nofun, nofun, nofun, nofun⟩

namespace Backed

theorem of_update {p : Phase} (hphase : s'.phase = update s.phase c p)
    (hrc : ∀ c' x, c' ≠ c → (s.phase c').reference = some x → x ∈ s'.store.rc)
    (href : ∀ x, p.reference = some x → x ∈ s'.store.rc)
    (hheld : ∀ x ∈ s'.held, x ∈ s'.store.rc ∧ x.1 ∈ s'.store.installed)
    (hrows : ∀ t ∈ s'.store.installed, s'.store.tables.Present t)
    (hbuilt : ∀ c' t q, c' ≠ c → s.phase c' = .finished t q true → s'.store.tables.Present t)
    (hbuilt' : ∀ t q, p = .finished t q true → s'.store.tables.Present t)
    (htold : ∀ c' x, c' ≠ c → s.phase c' = .announcing (some x) → x.1 ∈ s'.store.installed)
    (htold' : ∀ x, p = .announcing (some x) → x.1 ∈ s'.store.installed) : Backed s' := by
  refine ⟨?_, hheld, hrows, ?_, ?_⟩
  · intro c' x hx
    rw [hphase, update_apply] at hx
    split at hx
    · exact href x hx
    · next hne => exact hrc c' x hne hx
  · intro c' t q hq
    rw [hphase, update_apply] at hq
    split at hq
    · exact hbuilt' t q hq
    · next hne => exact hbuilt c' t q hne hq
  · intro c' x hx
    rw [hphase, update_apply] at hx
    split at hx
    · exact htold' x hx
    · next hne => exact htold c' x hne hx

theorem setPhase (h : Backed s) {p : Phase} (href : ∀ x, p.reference = some x → x ∈ s.store.rc)
    (hbuilt : ∀ t q, p = .finished t q true → s.store.tables.Present t)
    (htold : ∀ x, p = .announcing (some x) → x.1 ∈ s.store.installed) : Backed (s.setPhase c p) :=
  of_update (s := s) rfl (fun c' x _ => h.refs c' x) href h.held h.rows (fun c' t q _ => h.built c' t q) hbuilt
    (fun c' x _ => h.told c' x) htold

theorem acquires (h : Backed s) (tableID : UInt64) (pid : UInt32) :
    Backed ({ s with store := { s.store with rc := insert (tableID, pid) s.store.rc } }.setPhase c
      (.acquiring tableID pid)) := by
  refine of_update (s := s) rfl ?_ ?_ ?_ h.rows (fun c' t q _ => h.built c' t q) nofun (fun c' x _ => h.told c' x) nofun
  · intro c' x _ hx
    exact Finset.mem_insert_of_mem (h.refs c' x hx)
  · intro x hx
    cases hx
    exact Finset.mem_insert_self _ _
  · intro x hx
    exact ⟨Finset.mem_insert_of_mem (h.held x hx).1, (h.held x hx).2⟩

theorem finds (h : Backed s) (hp : s.phase c = .acquiring tableID pid) (hin : tableID ∈ s.store.installed) :
    Backed ({ s with held := insert (tableID, pid) s.held }.setPhase c .idle) := by
  refine of_update (s := s) rfl (fun c' x _ => h.refs c' x) nofun ?_ h.rows (fun c' t q _ => h.built c' t q) nofun
    (fun c' x _ => h.told c' x) nofun
  intro x hx
  obtain rfl | hx := Finset.mem_insert.mp hx
  · exact ⟨h.refs c _ (by rw [hp]; rfl), hin⟩
  · exact h.held x hx

/-- The install of a table touches the rows of that table only, and no one else counts on these. -/
theorem built_other (h : Backed s) (hc : Claimed s) (hp : (s.phase c).install = some tableID) {tables : Tables}
    (hother : ∀ t, t ≠ tableID → s.store.tables.SameAt tables t) :
    (∀ t ∈ s.store.installed, tables.Present t) ∧
      ∀ c' t q, c' ≠ c → s.phase c' = .finished t q true → tables.Present t := by
  constructor
  · intro t ht
    have hne : t ≠ tableID := by
      rintro rfl
      exact hc.absent t (hc.inflight c t hp) ht
    exact (h.rows t ht).of_sameAt (hother t hne)
  · intro c' t q hcc hq
    have hne : t ≠ tableID := by
      rintro rfl
      exact hcc (hc.unique c' c t (by rw [hq]; rfl) hp)
    exact (h.built c' t q hq).of_sameAt (hother t hne)

theorem fails (h : Backed s) (hc : Claimed s) (hp : s.phase c = .installing tableID pid) {tables : Tables}
    (hother : ∀ t, t ≠ tableID → s.store.tables.SameAt tables t) :
    Backed ({ s with store := { s.store with tables := tables } }.setPhase c (.failed tableID pid)) := by
  obtain ⟨hrows, hbuilt⟩ := h.built_other hc (by rw [hp]; rfl) hother
  refine of_update (s := s) rfl (fun c' x _ => h.refs c' x) ?_ h.held hrows hbuilt nofun
    (fun c' x _ => h.told c' x) nofun
  intro x hx
  exact h.refs c x (by rw [hp]; exact hx)

theorem builds (h : Backed s) (hc : Claimed s) (hp : s.phase c = .installing tableID pid) {tables : Tables}
    (hother : ∀ t, t ≠ tableID → s.store.tables.SameAt tables t) (hpresent : tables.Present tableID) :
    Backed ({ s with store := { s.store with tables := tables } }.setPhase c (.finished tableID pid true)) := by
  obtain ⟨hrows, hbuilt⟩ := h.built_other hc (by rw [hp]; rfl) hother
  refine of_update (s := s) rfl (fun c' x _ => h.refs c' x) ?_ h.held hrows hbuilt ?_ (fun c' x _ => h.told c' x) nofun
  · intro x hx
    exact h.refs c x (by rw [hp]; exact hx)
  · intro t q heq
    cases heq
    exact hpresent

/-- The reference of a failed install is dropped: nobody holds the table, which was never there. -/
theorem undoes (h : Backed s) (hc : Claimed s) (hp : s.phase c = .failed tableID pid)
    (hcalm : ∀ c', c' ≠ c → (s.phase c').reference ≠ some (tableID, pid)) :
    Backed ({ s with store := { s.store with rc := s.store.rc.erase (tableID, pid) } }.setPhase c
      (.finished tableID pid false)) := by
  refine of_update (s := s) rfl ?_ nofun ?_ h.rows (fun c' t q _ => h.built c' t q) nofun
    (fun c' x _ => h.told c' x) nofun
  · intro c' x hne hx
    refine Finset.mem_erase.mpr ⟨?_, h.refs c' x hx⟩
    rintro rfl
    exact hcalm c' hne hx
  · intro x hx
    obtain ⟨hrc, hin⟩ := h.held x hx
    refine ⟨Finset.mem_erase.mpr ⟨?_, hrc⟩, hin⟩
    rintro rfl
    exact hc.absent tableID (hc.inflight c _ (by rw [hp]; rfl)) hin

theorem ends (h : Backed s) {ok : Bool} (hp : s.phase c = .finished tableID pid ok) :
    Backed ({ s with store := s.store.endInstall tableID ok }.setPhase c
      (.announcing (if ok then some (tableID, pid) else none))) := by
  have hsub : s.store.installed ⊆ (s.store.endInstall tableID ok).installed := by
    cases ok with
    | false => exact subset_rfl
    | true => exact Finset.subset_insert _ _
  refine of_update (s := s) rfl (fun c' x _ => h.refs c' x) ?_ ?_ ?_ (fun c' t q _ => h.built c' t q) nofun ?_ ?_
  · intro x hx
    cases ok with
    | false => cases hx
    | true => exact h.refs c x (by rw [hp]; exact hx)
  · intro x hx
    exact ⟨(h.held x hx).1, hsub (h.held x hx).2⟩
  · intro t ht
    cases ok with
    | false => exact h.rows t ht
    | true =>
      obtain rfl | ht := Finset.mem_insert.mp ht
      · exact h.built c t pid hp
      · exact h.rows t ht
  · intro c' x _ hx
    exact hsub (h.told c' x hx)
  · intro x hx
    cases ok with
    | false => cases hx
    | true =>
      cases hx
      exact Finset.mem_insert_self _ _

theorem woken_reference (p : Phase) : (Callers.woken p).reference = p.reference := by
  cases p <;> rfl

theorem woken_eq {p q : Phase} (h : Callers.woken p = q) (hq : ∀ t pid, q ≠ .acquiring t pid) : p = q := by
  cases p with
  | waiting t pid => exact absurd h.symm (hq t pid)
  | _ => exact h

theorem wakes (h : Backed s) {returns : Option (UInt64 × UInt32)} (hp : s.phase c = .announcing returns) :
    Backed ({ s with
      phase := fun c => Callers.woken (s.phase c)
      held := returns.elim s.held fun x => insert x s.held }.setPhase c .idle) := by
  have hwoken : Backed { s with phase := fun c => Callers.woken (s.phase c) } := by
    refine ⟨?_, h.held, h.rows, ?_, ?_⟩
    · intro c' x hx
      exact h.refs c' x ((woken_reference _).symm.trans hx)
    · intro c' t q hq
      exact h.built c' t q (woken_eq hq nofun)
    · intro c' x hx
      exact h.told c' x (woken_eq hx nofun)
  refine of_update (s := { s with phase := fun c => Callers.woken (s.phase c) }) rfl
    (fun c' x _ => hwoken.refs c' x) nofun ?_ h.rows (fun c' t q _ => hwoken.built c' t q) nofun
    (fun c' x _ => hwoken.told c' x) nofun
  intro x hx
  cases returns with
  | none => exact h.held x hx
  | some y =>
    obtain rfl | hx := Finset.mem_insert.mp hx
    · exact ⟨h.refs c x (by rw [hp]; rfl), h.told c x hp⟩
    · exact h.held x hx

theorem releases (h : Backed s) {p : Phase} (hphase : p = .idle ∨ p = .releasing tableID)
    (hcalm : ∀ c', (s.phase c').reference ≠ some (tableID, pid)) :
    Backed ({ s with
      store := { s.store with rc := s.store.rc.erase (tableID, pid) }
      held := s.held.erase (tableID, pid) }.setPhase c p) := by
  have hnone : p.reference = none := by obtain rfl | rfl := hphase <;> rfl
  refine of_update (s := s) rfl ?_ ?_ ?_ h.rows (fun c' t q _ => h.built c' t q) ?_ (fun c' x _ => h.told c' x) ?_
  · intro c' x _ hx
    refine Finset.mem_erase.mpr ⟨?_, h.refs c' x hx⟩
    rintro rfl
    exact hcalm c' hx
  · intro x hx
    rw [hnone] at hx
    cases hx
  · intro x hx
    obtain ⟨hne, hx⟩ := Finset.mem_erase.mp hx
    exact ⟨Finset.mem_erase.mpr ⟨hne, (h.held x hx).1⟩, (h.held x hx).2⟩
  · obtain rfl | rfl := hphase <;> nofun
  · obtain rfl | rfl := hphase <;> nofun

theorem evicts (h : Backed s) (rulesDeleted lengthsDeleted : Bool) (hcalm : RefcountTable.pids s.store.rc tableID = ∅) :
    Backed ({ s with store := s.store.evict tableID rulesDeleted lengthsDeleted }.setPhase c (.announcing none)) := by
  have hno : ∀ x ∈ s.store.rc, x.1 ≠ tableID := fun x hx => Finset.filter_eq_empty_iff.mp hcalm hx
  have hsame : ∀ t, t ≠ tableID →
      s.store.tables.SameAt (s.store.evict tableID rulesDeleted lengthsDeleted).tables t := by
    intro t ht
    constructor
    · cases rulesDeleted with
      | false => rfl
      | true => exact find?_del_of_ne _ ht
    · cases lengthsDeleted with
      | false => rfl
      | true => exact find?_del_of_ne _ ht
  refine of_update (s := s) rfl (fun c' x _ => h.refs c' x) nofun ?_ ?_ ?_ nofun ?_ nofun
  · intro x hx
    obtain ⟨hrc, hin⟩ := h.held x hx
    exact ⟨hrc, Finset.mem_erase.mpr ⟨hno x hrc, hin⟩⟩
  · intro t ht
    obtain ⟨hne, ht⟩ := Finset.mem_erase.mp ht
    exact (h.rows t ht).of_sameAt (hsame t hne)
  · intro c' t q _ hq
    have hrc : (t, q) ∈ s.store.rc := h.refs c' (t, q) (by rw [hq]; rfl)
    exact (h.built c' t q hq).of_sameAt (hsame t (hno _ hrc))
  · intro c' x _ hx
    have hrc : x ∈ s.store.rc := h.refs c' x (by rw [hx]; rfl)
    exact Finset.mem_erase.mpr ⟨hno x hrc, h.told c' x hx⟩

theorem move (h : Backed s) (hc : Claimed s) (hcalm : Calm s (c, a)) (hm : Move s c a s') : Backed s' := by
  cases hm with
  | acquires hp => exact h.acquires _ _
  | finds hp hin => exact h.finds hp hin
  | claims hp hout hfree =>
    refine of_update (s := s) rfl (fun c' x _ => h.refs c' x) ?_ h.held h.rows
      (fun c' t q _ => h.built c' t q) nofun (fun c' x _ => h.told c' x) nofun
    intro x hx
    exact h.refs c x (by rw [hp]; exact hx)
  | sleeps hp hin =>
    refine h.setPhase ?_ nofun nofun
    intro x hx
    exact h.refs c x (by rw [hp]; exact hx)
  | fails hp hother => exact h.fails hc hp hother
  | builds hp hother hpresent => exact h.builds hc hp hother hpresent
  | undoes hp => exact h.undoes hc hp (hcalm _ (by rw [hp]; rfl))
  | ends hp => exact h.ends hp
  | wakes hp => exact h.wakes hp
  | releases hp hphase => exact h.releases hphase hcalm
  | evicts hp => exact h.evicts _ _ (hcalm _ (by rw [hp]; rfl))

end Backed

end References

/-! ## Runs -/

section Runs

variable {n : Nat} {s : Callers n} {as : List (Fin n × Section)}

theorem claimed_of_run (h : Run (fun s a s' => Callers.step s a = some s') ({} : Callers n) as s) : Claimed s :=
  Run.invariant (I := fun _ s => Claimed s) claimed_init (fun _ _ _ _ _ hs hstep => hs.move (move_of_step hstep)) h

theorem backed_of_run (h : Run (fun s a s' => Calm s a ∧ Callers.step s a = some s') ({} : Callers n) as s) :
    Claimed s ∧ Backed s := by
  refine Run.invariant (I := fun _ s => Claimed s ∧ Backed s) ⟨claimed_init, backed_init⟩ ?_ h
  rintro _ s a s' - ⟨hc, hb⟩ ⟨hcalm, hstep⟩
  have hm := move_of_step hstep
  exact ⟨hc.move hm, hb.move hc hcalm hm⟩

end Runs

/-- In every run whose steps are calm, the rows of a table that is held are in the maps.  In every
run at all, a caller that sleeps has someone else to wake it: the caller that performs the
install, or one that is about to broadcast. -/
theorem held_tables_present {n : Nat} {s : Callers n} {as : List (Fin n × Section)} :
    (Run (fun s a s' => Calm s a ∧ Callers.step s a = some s') {} as s →
      ∀ tableID pid, (tableID, pid) ∈ s.held → s.store.tables.Present tableID) ∧
    (Run (fun s a s' => Callers.step s a = some s') {} as s → ∀ c tableID pid, s.phase c = .waiting tableID pid →
        ∃ c', c' ≠ c ∧ ((s.phase c').install = some tableID ∨ ∃ r, s.phase c' = .announcing r)) := by
  constructor
  · intro h tableID pid hheld
    obtain ⟨-, hb⟩ := backed_of_run h
    exact hb.rows tableID (hb.held _ hheld).2
  · intro h c tableID pid hwait
    have hc := claimed_of_run h
    obtain hin | ⟨c', r, hr⟩ := hc.watched c tableID pid hwait
    · obtain ⟨c', hc'⟩ := hc.performed tableID hin
      refine ⟨c', ?_, .inl hc'⟩
      rintro rfl
      rw [hwait] at hc'
      cases hc'
    · refine ⟨c', ?_, .inr ⟨r, hr⟩⟩
      rintro rfl
      rw [hwait] at hr
      cases hr

def onlyRow : CFIEntry where
  pcStart := 0
  pcEndDelta := 16
  cfaType := .sp
  fpType := .sameValue
  cfaOffset := 8
  fpOffset := 0
  raOffset := -8
  raType := .offsetCFA

/-- Caller `0` acquires table `7` for process `1` and installs it. -/
def firstInstall : List (Fin 2 × Section) :=
  [(0, .acquire 7 1), (0, .beginInstall), (0, .build (some [onlyRow]) none), (0, .endInstall), (0, .broadcast)]

/-- Process `2` shares the table of process `1`, which lets go of it, and the last one to go
evicts it; then process `2` comes back and has to wait for a second install. -/
def takenInTurn : List (Fin 2 × Section) :=
  firstInstall ++ [(1, .acquire 7 2), (1, .beginInstall), (0, .release 7 1), (1, .release 7 2),
    (1, .evict true true), (1, .broadcast), (0, .acquire 7 1), (0, .beginInstall), (1, .acquire 7 2),
    (1, .beginInstall), (0, .build (some [onlyRow]) none), (0, .endInstall)]

theorem held_tables_present_takenInTurn :
    (∃ s : Callers 2, Run (fun s a s' => Calm s a ∧ Callers.step s a = some s') {} takenInTurn s ∧
      s.phase 1 = .waiting 7 2 ∧ ∃ c', c' ≠ 1 ∧ ((s.phase c').install = some 7 ∨ ∃ r, s.phase c' = .announcing r)) ∧
    ∃ s : Callers 2, Run (fun s a s' => Calm s a ∧ Callers.step s a = some s') {}
        (takenInTurn ++ [(0, .broadcast), (1, .beginInstall)]) s ∧
      (7, 2) ∈ s.held ∧ s.store.tables.Present 7 := by
  constructor
  · obtain ⟨s, hrun, hwait⟩ := exists_guarded_run Callers.step Calm {} takenInTurn
      (fun s => decide (s.phase 1 = .waiting 7 2)) (by decide +kernel)
    refine ⟨s, hrun, of_decide_eq_true hwait, ?_⟩
    exact held_tables_present.2 (hrun.mono fun _ _ _ ha => ha.2) 1 7 2 (of_decide_eq_true hwait)
  · obtain ⟨s, hrun, hheld⟩ := exists_guarded_run Callers.step Calm {}
      (takenInTurn ++ [(0, .broadcast), (1, .beginInstall)])
      (fun s => decide ((7, 2) ∈ s.held)) (by decide +kernel)
    exact ⟨s, hrun, of_decide_eq_true hheld, held_tables_present.1 hrun 7 2 (of_decide_eq_true hheld)⟩

/-- The last reference is dropped, another process is told that the table is there, and the
eviction takes the rows away from it. -/
theorem evicted_while_held : ∃ s : Callers 2, Run (fun s a s' => Callers.step s a = some s') {}
        (firstInstall ++ [(0, .release 7 1), (1, .acquire 7 2), (1, .beginInstall), (0, .evict true true)]) s ∧
      (7, 2) ∈ s.held ∧ ¬s.store.tables.Present 7 := by
  obtain ⟨s, hrun, hs⟩ := @exists_run _ _ Callers.step ({} : Callers 2)
    (firstInstall ++ [(0, .release 7 1), (1, .acquire 7 2), (1, .beginInstall), (0, .evict true true)])
    (fun s => decide ((7, 2) ∈ s.held ∧ s.store.tables.cfiRules.find? 7 = none)) (by decide +kernel)
  obtain ⟨hheld, hgone⟩ := of_decide_eq_true hs
  refine ⟨s, hrun, hheld, ?_⟩
  rintro ⟨rows, hrows, -⟩
  rw [hgone] at hrows
  cases hrows

end PerfAgent.Unwind
