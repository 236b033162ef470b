import Mathlib.Data.List.Basic

/-!
# Parsers that consume a stream

A parser takes tokens off the front of its input and may keep a digest of those it has taken.
Two judgements about it:

* `Local`: what a successful parser does depends only on the tokens it takes;
* `Reads`: on the tokens `c`, whatever follows them, the parser takes these and answers `a`.

The first says that an accepted input determines how far the parser gets on anything that
starts with it; the second is how a round trip is stated.  Both go through a bind.
-/

universe u v

namespace PerfAgent

open List

/-- A parser of tokens `τ` with a digest `σ` and errors `ε`. -/
abbrev StreamParser (τ : Type u) (σ : Type u) (ε : Type v) (α : Type u) :=
  StateT (List τ × σ) (Except ε) α

namespace StreamParser

variable {τ σ : Type u} {ε : Type v} {α β : Type u}

theorem bind_eq_ok {p : StreamParser τ σ ε α} {f : α → StreamParser τ σ ε β} {x : List τ × σ} {y : β × (List τ × σ)} :
    (p >>= f) x = .ok y ↔ ∃ a x', p x = .ok (a, x') ∧ f a x' = .ok y := by
  have hbind : (p >>= f) x = (p x).bind fun r => f r.1 r.2 := rfl
  rw [hbind]
  cases hp : p x with
  | error e =>
    constructor
    · intro h
      cases h
    · rintro ⟨a, x', heq, -⟩
      cases heq
  | ok r =>
    constructor
    · intro h
      exact ⟨r.1, r.2, rfl, h⟩
    · rintro ⟨a, x', heq, h⟩
      cases heq
      exact h

/-! ## Single tokens and blocks -/

def item (upd : σ → τ → σ) (e : ε) : StreamParser τ σ ε τ := fun x =>
  match x.1 with
  | [] => .error e
  | t :: l => .ok (t, (l, upd x.2 t))

/-- The next `n` tokens. -/
def block (upd : σ → τ → σ) (e : ε) (n : Nat) : StreamParser τ σ ε (List τ) := fun x =>
  if n ≤ x.1.length then .ok (x.1.take n, (x.1.drop n, (x.1.take n).foldl upd x.2)) else .error e

/-! ## What is taken determines the answer -/

def Local (p : StreamParser τ σ ε α) : Prop :=
  ∀ l s a l' s', p (l, s) = .ok (a, (l', s')) → ∃ c, l = c ++ l' ∧ ∀ rest, p (c ++ rest, s) = .ok (a, (rest, s'))

theorem local_pure (a : α) : Local (pure a : StreamParser τ σ ε α) := by
  intro l s b l' s' h
  cases h
  exact ⟨[], rfl, fun _ => rfl⟩

theorem local_throw (e : ε) : Local (throw e : StreamParser τ σ ε α) := by
  intro l s a l' s' h
  cases h

theorem Local.bind {p : StreamParser τ σ ε α} {f : α → StreamParser τ σ ε β} (hp : Local p)
    (hf : ∀ a, Local (f a)) : Local (p >>= f) := by
  intro l s b l' s' h
  obtain ⟨a, ⟨l₁, s₁⟩, hpa, hfa⟩ := bind_eq_ok.mp h
  obtain ⟨c, rfl, hc⟩ := hp _ _ _ _ _ hpa
  obtain ⟨c', rfl, hc'⟩ := hf a _ _ _ _ _ hfa
  refine ⟨c ++ c', by rw [append_assoc], fun rest => bind_eq_ok.mpr ⟨a, (c' ++ rest, s₁), ?_, hc' rest⟩⟩
  rw [append_assoc]
  exact hc _

theorem Local.ite {p q : StreamParser τ σ ε α} {P : Prop} [Decidable P] (hp : Local p) (hq : Local q) :
    Local (if P then p else q) := by
  split
  · exact hp
  · exact hq

theorem local_item (upd : σ → τ → σ) (e : ε) : Local (item upd e) := by
  intro l s a l' s' h
  cases l with
  | nil => cases h
  | cons t l =>
    cases h
    exact ⟨[_], rfl, fun _ => rfl⟩

/-! ## Round trips -/

/-- On the tokens `c` the parser takes these and answers `a`. -/
def Reads (upd : σ → τ → σ) (p : StreamParser τ σ ε α) (c : List τ) (a : α) : Prop :=
  ∀ rest s, p (c ++ rest, s) = .ok (a, (rest, c.foldl upd s))

variable {upd : σ → τ → σ}

theorem reads_pure (a : α) : Reads upd (pure a : StreamParser τ σ ε α) [] a := fun _ _ => rfl

theorem Reads.bind {p : StreamParser τ σ ε α} {f : α → StreamParser τ σ ε β} {c d : List τ} {a : α} {b : β}
    (hp : Reads upd p c a) (hf : Reads upd (f a) d b) : Reads upd (p >>= f) (c ++ d) b := by
  intro rest s
  refine bind_eq_ok.mpr ⟨a, (d ++ rest, c.foldl upd s), ?_, ?_⟩
  · rw [append_assoc]
    exact hp _ s
  · rw [foldl_append]
    exact hf rest _

theorem Reads.map {p : StreamParser τ σ ε α} {c : List τ} {a : α} (hp : Reads upd p c a) (g : α → β) :
    Reads upd (p >>= fun a => pure (g a)) c (g a) := by
  have h : Reads upd (p >>= fun a => pure (g a)) (c ++ []) (g a) := hp.bind (reads_pure (g a))
  rwa [append_nil] at h

theorem reads_item (e : ε) (t : τ) : Reads upd (item upd e) [t] t := fun _ _ => rfl

theorem reads_block (e : ε) {n : Nat} {c : List τ} (h : c.length = n) : Reads upd (block upd e n) c c := by
  intro rest s
  subst h
  unfold block
  rw [if_pos (by simp), take_left, drop_left]

theorem local_block (upd : σ → τ → σ) (e : ε) (n : Nat) : Local (block upd e n) := by
  intro l s a l' s' h
  unfold block at h
  split at h
  · next hn =>
    cases h
    refine ⟨l.take n, (take_append_drop n l).symm, fun rest => ?_⟩
    exact reads_block e (length_take_of_le hn) rest s
  · cases h

theorem Reads.guard {p : StreamParser τ σ ε α} {c : List τ} {a : α} {P : Prop} [Decidable P] {e : ε}
    (hP : ¬P) (hp : Reads upd p c a) : Reads upd (if P then throw e else p) c a := by
  rw [if_neg hP]
  exact hp

end StreamParser

end PerfAgent
