import Mathlib.Data.List.Infix

/-!
# The rotating log

`RotatingWriter` of `metrics/rotating.go`: a file that is written, and the two before it.  What the file system refuses
comes with each call, and so does how many bytes of a record it takes; nobody else changes the files.
-/

namespace PerfAgent.Metrics

open List

/-- The contents of `Path`, `Path.1` and `Path.2`, where they exist. -/
structure LogFiles where
  path : Option (List UInt8) := none
  old : Option (List UInt8) := none
  older : Option (List UInt8) := none
deriving DecidableEq

structure RotatingWriter where
  maxBytes : Nat
  files : LogFiles
  isOpen : Bool
  size : Nat
deriving DecidableEq

/-- What fails during a call: a look at the files, the close, each rename, the new file, the write after so many bytes. -/
structure Faults where
  lstat : Bool := false
  close : Bool := false
  renameOld : Bool := false
  rename : Bool := false
  reopen : Bool := false
  written : Nat
deriving DecidableEq

inductive RotateError where
  | tooLong
  | closed
  | invalid
  | close
  | rename
  | reopen
  | short
deriving DecidableEq

namespace RotatingWriter

variable (w : RotatingWriter) (p : List UInt8) (f : Faults)

def validateFiles : Bool :=
  !f.lstat && [w.files.path, w.files.old, w.files.older].all fun c => c.all (·.length ≤ w.maxBytes)

/-- `open`. -/
def openFile : Option RotatingWriter :=
  if f.reopen then none
  else
    let c := w.files.path.getD []
    some { w with files := { w.files with path := some c }, isOpen := true, size := c.length }

def rotate : RotatingWriter × Option RotateError :=
  if w.validateFiles f = false then (w, some .invalid)
  else
    let w := { w with isOpen := false }
    if f.close then (w, some .close)
    else if f.renameOld then (w, some .rename)
    else
      let w := { w with files := { w.files with old := none, older := w.files.old.or w.files.older } }
      if f.rename ∨ w.files.path = none then (w, some .rename)
      else
        let w := { w with files := { w.files with path := none, old := w.files.path } }
        match w.openFile f with
        | none => (w, some .reopen)
        | some w => (w, none)

/-- One record, and how many bytes of it are in the file afterwards. -/
def write : RotatingWriter × Nat × Option RotateError :=
  if p.length > w.maxBytes then (w, 0, some .tooLong)
  else if w.isOpen = false then (w, 0, some .closed)
  else
    let r := if w.size + p.length > w.maxBytes then w.rotate f else (w, none)
    match r.2 with
    | some err => (r.1, 0, some err)
    | none =>
      let w := r.1
      let n := min f.written p.length
      ({ w with files := { w.files with path := some (w.files.path.getD [] ++ p.take n) }, size := w.size + n }, n,
        if n < p.length then some .short else none)

/-- A sequence of calls, and what each of them has put into a file. -/
def writes : List (List UInt8 × Faults) → RotatingWriter × List (List UInt8) :=
  foldl (fun r c => ((r.1.write c.1 c.2).1, r.2 ++ [c.1.take (r.1.write c.1 c.2).2.1])) (w, [])

/-! ## What the files hold -/

/-- The pieces, oldest first, are what was lost and then the three files, each made of whole pieces. -/
structure Holds (w : RotatingWriter) (pieces lost : List (List UInt8)) : Prop where
  split : ∃ r₂ r₁ r₀, pieces = lost ++ r₂ ++ r₁ ++ r₀ ∧ w.files.older.getD [] = r₂.flatten ∧
    w.files.old.getD [] = r₁.flatten ∧ w.files.path.getD [] = r₀.flatten
  bounded : ∀ c ∈ [w.files.path, w.files.old, w.files.older], (c.getD []).length ≤ w.maxBytes
  opened : w.isOpen = true → w.files.path.isSome = true ∧ w.size = (w.files.path.getD []).length

def kept : Nat := (w.files.old.getD []).length + (w.files.path.getD []).length

variable {w p f} {pieces lost : List (List UInt8)}

theorem Holds.openFile (h : w.Holds pieces lost) {w' : RotatingWriter} (hw : w.openFile f = some w') :
    w'.Holds pieces lost ∧ w'.isOpen = true := by
  unfold RotatingWriter.openFile at hw
  split at hw
  · cases hw
  · cases hw
    refine ⟨⟨h.split, ?_, fun _ => ⟨rfl, rfl⟩⟩, rfl⟩
    have hb := h.bounded
    simp only [forall_mem_cons] at hb ⊢
    exact hb

/-- A rotation loses the oldest file, or nothing; it is only asked for where the next record does not fit. -/
theorem Holds.rotate (h : w.Holds pieces lost) (f : Faults) :
    ∃ lost', (w.rotate f).1.Holds pieces lost' ∧ (w.rotate f).1.maxBytes = w.maxBytes ∧
      ((w.rotate f).2 = some .invalid → (w.rotate f).1 = w ∧ lost' = lost) ∧
      ((w.rotate f).2 = none → (w.rotate f).1.isOpen = true ∧ (w.rotate f).1.files.path = some [] ∧
        (w.rotate f).1.files.old = w.files.path) ∧
      ((w.rotate f).2 ≠ none → (w.rotate f).2 ≠ some .invalid → (w.rotate f).1.isOpen = false) := by
  obtain ⟨r₂, r₁, r₀, hsplit, holder, hold, hpath⟩ := h.split
  obtain ⟨hb₀, hb₁, hb₂⟩ : (w.files.path.getD []).length ≤ w.maxBytes ∧ (w.files.old.getD []).length ≤ w.maxBytes ∧
      (w.files.older.getD []).length ≤ w.maxBytes := by
    simpa using h.bounded
  have hclosed : { w with isOpen := false }.Holds pieces lost := ⟨h.split, h.bounded, nofun⟩
  -- the first rename
  obtain ⟨lost', r, hpieces, hmoved, hsmall⟩ : ∃ lost' r, pieces = lost' ++ r ++ [] ++ r₀ ∧
      (w.files.old.or w.files.older).getD [] = r.flatten ∧
        ((w.files.old.or w.files.older).getD []).length ≤ w.maxBytes := by
    cases hc : w.files.old with
    | none =>
      rw [hc, Option.getD_none] at hold
      have hnil : r₁.flatten = [] := hold.symm
      refine ⟨lost, r₂ ++ r₁, by simp [hsplit], ?_, hb₂⟩
      rw [Option.none_or, holder, flatten_append, hnil, append_nil]
    | some c =>
      rw [hc] at hold hb₁
      exact ⟨lost ++ r₂, r₁, by simp [hsplit], hold, hb₁⟩
  have hbound {a b c : Option (List UInt8)} (ha : (a.getD []).length ≤ w.maxBytes)
      (hb : (b.getD []).length ≤ w.maxBytes) (hc : (c.getD []).length ≤ w.maxBytes) :
      ∀ x ∈ [a, b, c], (x.getD []).length ≤ w.maxBytes := by
    simpa only [forall_mem_cons, not_mem_nil, false_imp_iff, implies_true, and_true] using ⟨ha, hb, hc⟩
  have hfirst : { w with isOpen := false, files := { w.files with
      old := none, older := w.files.old.or w.files.older } }.Holds pieces lost' :=
    ⟨⟨r, [], r₀, hpieces, hmoved, rfl, hpath⟩, hbound hb₀ (Nat.zero_le _) hsmall, nofun⟩
  have hsecond : { w with isOpen := false, files := { w.files with
      path := none, old := w.files.path, older := w.files.old.or w.files.older } }.Holds pieces lost' :=
    ⟨⟨r, r₀, [], by simpa using hpieces, hmoved, hpath, rfl⟩, hbound (Nat.zero_le _) hb₀ hsmall, nofun⟩
  unfold RotatingWriter.rotate
  split
  · exact ⟨lost, h, rfl, fun _ => ⟨rfl, rfl⟩, nofun, fun _ hne => absurd rfl hne⟩
  · dsimp only
    split
    · exact ⟨lost, hclosed, rfl, nofun, nofun, fun _ _ => rfl⟩
    · split
      · exact ⟨lost, hclosed, rfl, nofun, nofun, fun _ _ => rfl⟩
      · split
        · exact ⟨lost', hfirst, rfl, nofun, nofun, fun _ _ => rfl⟩
        · cases hopen : RotatingWriter.openFile _ f with
          | none => exact ⟨lost', hsecond, rfl, nofun, nofun, fun _ _ => rfl⟩
          | some w' =>
            obtain ⟨hw', hisOpen⟩ := hsecond.openFile hopen
            unfold RotatingWriter.openFile at hopen
            split at hopen
            · cases hopen
            · cases hopen
              exact ⟨lost', hw', rfl, nofun, fun _ => ⟨rfl, rfl, rfl⟩, fun hne => absurd rfl hne⟩

theorem Holds.append (h : w.Holds pieces lost) {c : List UInt8} (hopen : w.isOpen = true)
    (hroom : w.size + c.length ≤ w.maxBytes) :
    { w with files := { w.files with path := some (w.files.path.getD [] ++ c) }, size := w.size + c.length }.Holds
      (pieces ++ [c]) lost := by
  obtain ⟨r₂, r₁, r₀, hsplit, holder, hold, hpath⟩ := h.split
  have hsize := (h.opened hopen).2
  obtain ⟨-, hb₁, hb₂⟩ : (w.files.path.getD []).length ≤ w.maxBytes ∧ (w.files.old.getD []).length ≤ w.maxBytes ∧
      (w.files.older.getD []).length ≤ w.maxBytes := by
    simpa using h.bounded
  refine ⟨⟨r₂, r₁, r₀ ++ [c], by simp [hsplit], holder, hold, by simp [hpath]⟩, ?_, fun _ => ⟨rfl, ?_⟩⟩
  · have hb₀ : (w.files.path.getD [] ++ c).length ≤ w.maxBytes := by
      rw [length_append, ← hsize]
      exact hroom
    simpa using ⟨by simpa using hb₀, hb₁, hb₂⟩
  · show _ = (w.files.path.getD [] ++ c).length
    rw [length_append, hsize]

theorem Holds.idle (h : w.Holds pieces lost) : w.Holds (pieces ++ [[]]) lost := by
  obtain ⟨r₂, r₁, r₀, hsplit, holder, hold, hpath⟩ := h.split
  exact ⟨⟨r₂, r₁, r₀ ++ [[]], by simp [hsplit], holder, hold, by simp [hpath]⟩, h.bounded, h.opened⟩

/-- Nothing has been lost, or more than a file of the newest bytes is there. -/
def Keeps (w : RotatingWriter) (lost : List (List UInt8)) : Prop :=
  w.isOpen = true → lost.flatten = [] ∨ w.maxBytes < w.kept

theorem Holds.write (h : w.Holds pieces lost) (p : List UInt8) (f : Faults) :
    ∃ lost', (w.write p f).1.Holds (pieces ++ [p.take (w.write p f).2.1]) lost' ∧
      (w.write p f).1.maxBytes = w.maxBytes ∧ (p.length ≤ f.written → w.Keeps lost → (w.write p f).1.Keeps lost') := by
  unfold RotatingWriter.write
  split
  · exact ⟨lost, h.idle, rfl, fun _ hk => hk⟩
  · next hlong =>
    split
    · exact ⟨lost, h.idle, rfl, fun _ hk => hk⟩
    · next hclosed =>
      have hopen : w.isOpen = true := by simpa using hclosed
      have hsize := (h.opened hopen).2
      have hmin : (p.take (min f.written p.length)).length = min f.written p.length := by
        rw [length_take, Nat.min_eq_left (Nat.min_le_right _ _)]
      split
      · next hfull =>
        obtain ⟨lost', hrot, hmax, hinvalid, hok, hfail⟩ := h.rotate f
        cases herr : (w.rotate f).2 with
        | some err =>
          simp only [herr]
          refine ⟨lost', hrot.idle, hmax, fun _ hk hopen' => ?_⟩
          by_cases hi : err = .invalid
          · -- nothing has been done
            obtain ⟨hsame, rfl⟩ := hinvalid (by rw [herr, hi])
            rw [hsame] at hopen' ⊢
            exact hk hopen'
          · rw [hfail (by rw [herr]; nofun) (by rw [herr]; simpa using hi)] at hopen'
            cases hopen'
        | none =>
          obtain ⟨hopen', hpath, hold⟩ := hok herr
          have hzero : (w.rotate f).1.size = 0 := by
            rw [(hrot.opened hopen').2, hpath]
            rfl
          have happend := hrot.append (c := p.take (min f.written p.length)) hopen'
            (by rw [hzero, hmin, hmax]; omega)
          rw [hmin] at happend
          simp only [herr]
          refine ⟨lost', happend, hmax, fun hall _ _ => .inr ?_⟩
          show (w.rotate f).1.maxBytes < ((w.rotate f).1.files.old.getD []).length + _
          rw [hold, hpath, hmax, Option.getD_some, Option.getD_some, nil_append, hmin, Nat.min_eq_right hall, ← hsize]
          exact hfull
      · next hfits =>
        have happend := h.append (c := p.take (min f.written p.length)) hopen (by rw [hmin]; omega)
        rw [hmin] at happend
        refine ⟨lost, happend, rfl, fun _ hk _ => (hk hopen).imp_right fun hlt => hlt.trans_le ?_⟩
        show w.kept ≤ (w.files.old.getD []).length + (w.files.path.getD [] ++ _).length
        rw [length_append]
        exact Nat.add_le_add_left (Nat.le_add_right _ _) _

/-! ## Runs -/

end RotatingWriter

end PerfAgent.Metrics
