import PerfAgent.CubinFile.InRange

/-!
# Line programs and their relocations

The entries that a line program stands for, as functions of what its operands hold, and what the relocations
leave in the operands: each is the base of a window, and nothing else of the section is written.
-/

namespace PerfAgent.CubinFile

open List

open Pprof (ascii)

/-! ## Line programs -/

/-- What an instruction does: `DW_LNE_set_address` takes the address from the operand at an offset of the section. -/
inductive LineOp where
  | setAddress (operand : Nat)
  | advance (delta : UInt64)
  | row (file : Option Name) (line : Int)
deriving DecidableEq

/-- A sequence; `last` is what the registers hold at `DW_LNE_end_sequence`, if it is there. -/
structure LineSeq where
  ops : List LineOp
  last : Option (Option Name × Int)

structure LineProgram where
  seqs : List LineSeq

def entriesFrom (value : Nat → UInt64) (last : Option (Option Name × Int)) : UInt64 → List LineOp → List LineEntry
  | address, [] => last.toList.map fun r => { address, file := r.1, line := r.2, endSequence := true }
  | _, .setAddress operand :: ops => entriesFrom value last (value operand) ops
  | address, .advance delta :: ops => entriesFrom value last (address + delta) ops
  | address, .row file line :: ops =>
    { address, file, line, endSequence := false } :: entriesFrom value last address ops

def LineSeq.entries (value : Nat → UInt64) (s : LineSeq) : List LineEntry := entriesFrom value s.last 0 s.ops

def LineOp.operand? : LineOp → Option Nat
  | .setAddress operand => some operand
  | .advance _ => none
  | .row _ _ => none

def LineSeq.operands (s : LineSeq) : List Nat := s.ops.filterMap LineOp.operand?

def LineProgram.operands (P : LineProgram) : List Nat := P.seqs.flatMap LineSeq.operands

def LineProgram.entries (value : Nat → UInt64) (P : LineProgram) : List LineEntry :=
  P.seqs.flatMap (LineSeq.entries value)

def operandAt (line : List UInt8) (o : Nat) : UInt64 := UInt64.ofNat (leAt line o 8)

def LineProgram.read (P : LineProgram) (line : List UInt8) : Except DwarfErr (List LineEntry) :=
  .ok (P.entries (operandAt line))

/-- The line section is an encoding of the program: with other numbers in the operands, the library reads the same
program with these numbers. -/
structure Libraries.Encodes (libs : Libraries) (bytes : List UInt8) (P : LineProgram) : Prop where
  apart : P.operands.Pairwise fun o o' => o + 8 ≤ o' ∨ o' + 8 ≤ o
  reads : ∀ out : List UInt8, out.length = bytes.length →
    (∀ i, (∀ o ∈ P.operands, i < o ∨ o + 8 ≤ i) → out[i]? = bytes[i]?) → libs.readLines out = P.read out

theorem entriesFrom_congr {value value' : Nat → UInt64} (last : Option (Option Name × Int)) {ops : List LineOp}
    (h : ∀ o ∈ ops.filterMap LineOp.operand?, value o = value' o) (address : UInt64) :
    entriesFrom value last address ops = entriesFrom value' last address ops := by
  induction ops generalizing address with
  | nil => rfl
  | cons op ops ih =>
    cases op with
    | setAddress operand =>
      have hrest := fun o ho => h o (mem_cons_of_mem _ ho)
      rw [entriesFrom, entriesFrom, h operand mem_cons_self, ih hrest]
    | advance delta => exact ih h _
    | row file line =>
      rw [entriesFrom, entriesFrom, ih h]

theorem LineSeq.entries_congr {value value' : Nat → UInt64} {s : LineSeq}
    (h : ∀ o ∈ s.operands, value o = value' o) : s.entries value = s.entries value' := entriesFrom_congr s.last h 0

/-! ## Another place for the operands -/

variable (ρ : Nat → Nat)

def LineOp.rename : LineOp → LineOp
  | .setAddress operand => .setAddress (ρ operand)
  | .advance delta => .advance delta
  | .row file line => .row file line

def LineSeq.rename (ρ : Nat → Nat) (s : LineSeq) : LineSeq := { s with ops := s.ops.map (LineOp.rename ρ) }

theorem entriesFrom_rename (value : Nat → UInt64) (last : Option (Option Name × Int)) (ops : List LineOp)
    (address : UInt64) :
    entriesFrom value last address (ops.map (LineOp.rename ρ)) = entriesFrom (value ∘ ρ) last address ops := by
  induction ops generalizing address with
  | nil => rfl
  | cons op ops ih =>
    cases op with
    | setAddress operand => exact ih _
    | advance delta => exact ih _
    | row file line => exact congrArg _ (ih address)

theorem LineSeq.entries_rename (value : Nat → UInt64) (s : LineSeq) :
    (s.rename ρ).entries value = s.entries (value ∘ ρ) := entriesFrom_rename ρ value s.last s.ops 0

theorem LineOp.rename_id (op : LineOp) : op.rename id = op := by
  cases op <;> rfl

theorem LineSeq.rename_id (s : LineSeq) : s.rename id = s := by
  have hops : s.ops.map (LineOp.rename id) = s.ops := by
    rw [map_congr_left fun op _ => op.rename_id, map_id']
  exact congrArg (fun ops => { s with ops }) hops

/-! ## One operand is written -/

section Patch

variable {l l' : List UInt8} {lo o : Nat}

theorem leAt_congr (h : ∀ i, i < 8 → l[o + i]? = l'[o + i]?) : leAt l o 8 = leAt l' o 8 := by
  unfold leAt
  refine congrArg leValue (ext_getElem? fun i => ?_)
  by_cases hi : i < 8
  · rw [getElem?_take_of_lt hi, getElem?_take_of_lt hi, getElem?_drop, getElem?_drop, h i hi]
  · rw [getElem?_take_eq_none (Nat.not_lt.mp hi), getElem?_take_eq_none (Nat.not_lt.mp hi)]

theorem getElem?_patch (h : lo + 8 ≤ l.length) (v : UInt64) {i : Nat} (hi : i < lo ∨ lo + 8 ≤ i) :
    (patch l lo v)[i]? = l[i]? := by
  have htake : (l.take lo).length = lo := length_take_of_le (by omega)
  unfold patch
  rcases hi with hi | hi
  · rw [append_assoc, getElem?_append_left (by omega), getElem?_take_of_lt hi]
  · rw [getElem?_append_right (by rw [List.length_append, length_leBytes, htake]; omega), List.length_append,
      length_leBytes, htake, getElem?_drop, Nat.add_sub_cancel' hi]

theorem operandAt_patch_self (h : lo + 8 ≤ l.length) (v : UInt64) : operandAt (patch l lo v) lo = v := by
  have hleAt : leAt (patch l lo v) lo 8 = v.toNat := by
    have htake : (l.take lo).length = lo := length_take_of_le (by omega)
    have hat := leAt_append htake (leBytes 8 v.toNat ++ l.drop (lo + 8)) 0 8
    rw [Nat.add_zero, ← append_assoc, leAt_leBytes] at hat
    exact hat.trans (Nat.mod_eq_of_lt v.toNat_lt)
  unfold operandAt
  rw [hleAt, UInt64.ofNat_toNat]

theorem operandAt_patch_of_apart (h : lo + 8 ≤ l.length) (v : UInt64) (ho : lo + 8 ≤ o ∨ o + 8 ≤ lo) :
    operandAt (patch l lo v) o = operandAt l o := by
  unfold operandAt
  rw [leAt_congr fun i hi => getElem?_patch h v (by omega)]

end Patch

/-! ## All operands are written -/

/-- The relocations against device functions: the offset of the operand, and the function. -/
def targetsOf (funcBySym : AssocMap Nat Name) (rels : List (UInt64 × UInt64)) : List (Nat × Name) :=
  rels.filterMap fun r : UInt64 × UInt64 => (funcBySym.find? (r.2 >>> 32).toNat).map fun fn => (r.1.toNat, fn)

/-- The windows of targets, the first of them the window `k`. -/
def windowsFrom : Nat → List (Nat × Name) → List Sequence
  | _, [] => []
  | k, t :: ts => { fn := t.2, base := windowBase k } :: windowsFrom (k + 1) ts

/-- What is in an operand, the windows being given out from `k` on: the last of them, if there is one. -/
def operandValue (o : Nat) : Nat → List (Nat × Name) → UInt64 → UInt64
  | _, [], literal => literal
  | k, t :: ts, literal => operandValue o (k + 1) ts (if t.1 = o then windowBase k else literal)

theorem getElem?_windowsFrom (k : Nat) (targets : List (Nat × Name)) (i : Nat) :
    (windowsFrom k targets)[i]? = targets[i]?.map fun t => { fn := t.2, base := windowBase (k + i) } := by
  induction targets generalizing k i with
  | nil => rfl
  | cons t targets ih =>
    cases i with
    | zero => rfl
    | succ i =>
      rw [windowsFrom, getElem?_cons_succ, getElem?_cons_succ, ih, Nat.add_right_comm]
      rfl

theorem operandValue_rename {ρ : Nat → Nat} {o k : Nat} {targets : List (Nat × Name)}
    (h : ∀ t ∈ targets, ρ t.1 = ρ o → t.1 = o) (literal : UInt64) :
    operandValue (ρ o) k (targets.map fun t => (ρ t.1, t.2)) literal = operandValue o k targets literal := by
  induction targets generalizing k literal with
  | nil => rfl
  | cons t targets ih =>
    have hhead : ρ t.1 = ρ o ↔ t.1 = o := ⟨h t mem_cons_self, congrArg ρ⟩
    rw [map_cons, operandValue, operandValue, ih fun t ht => h t (mem_cons_of_mem _ ht)]
    simp only [hhead]

/-- The windows from `k` on have been written to the operands of targets. -/
structure Relocated (k : Nat) (targets : List (Nat × Name)) (bytes out : List UInt8) : Prop where
  length : out.length = bytes.length
  outside : ∀ i, (∀ t ∈ targets, i < t.1 ∨ t.1 + 8 ≤ i) → out[i]? = bytes[i]?
  value : ∀ o, (∀ t ∈ targets, t.1 = o ∨ t.1 + 8 ≤ o ∨ o + 8 ≤ t.1) →
    operandAt out o = operandValue o k targets (operandAt bytes o)

theorem Relocated.nil (k : Nat) (line : List UInt8) : Relocated k [] line line := ⟨rfl, fun _ _ => rfl, fun _ _ => rfl⟩

theorem Relocated.cons {k : Nat} {t : Nat × Name} {ts : List (Nat × Name)} {line out : List UInt8}
    (hle : t.1 + 8 ≤ line.length) (h : Relocated (k + 1) ts (patch line t.1 (windowBase k)) out) :
    Relocated k (t :: ts) line out := by
  constructor
  · rw [h.length, length_patch hle]
  · intro i hi
    rw [h.outside i fun t ht => hi t (mem_cons_of_mem _ ht), getElem?_patch hle _ (hi t mem_cons_self)]
  · intro o ho
    rw [h.value o fun t ht => ho t (mem_cons_of_mem _ ht), operandValue]
    by_cases heq : t.1 = o
    · rw [if_pos heq, ← heq, operandAt_patch_self hle]
    · rw [if_neg heq, operandAt_patch_of_apart hle _ ((ho t mem_cons_self).resolve_left heq)]

theorem relocate_eq_ok {line out : List UInt8} {rOffset base : UInt64} (hlen : line.length < 2 ^ 63)
    (h : relocate line rOffset base = .ok out) :
    rOffset.toNat + 8 ≤ line.length ∧ out = patch line rOffset.toNat base := by
  by_cases hwraps : Wraps line rOffset
  · rw [relocate_of_wraps hlen hwraps] at h
    cases h
  · by_cases hadmits : Admits line rOffset
    · rw [relocate_of_admits hlen hadmits] at h
      cases h
      exact ⟨hadmits.2.1, rfl⟩
    · obtain ⟨e, he⟩ := relocate_of_not_admits hlen hwraps hadmits base
      rw [he] at h
      cases h

theorem relocLoop_eq_ok {funcBySym : AssocMap Nat Name} {rel : List UInt8} {n off : Nat}
    (hn : off + relSize * n ≤ rel.length) {line out : List UInt8} (hlen : line.length < 2 ^ 63)
    {seqs seqs' : List Sequence} (h : relocLoop funcBySym rel n off line seqs = .ok (out, seqs')) :
    seqs' = seqs ++ windowsFrom seqs.length (targetsOf funcBySym (relsFrom rel n off)) ∧
      Relocated seqs.length (targetsOf funcBySym (relsFrom rel n off)) line out := by
  induction n generalizing off line seqs with
  | zero =>
    cases h
    exact ⟨(append_nil _).symm, Relocated.nil _ _⟩
  | succ n ih =>
    have hsize : relSize * (n + 1) = relSize * n + 16 := by rw [Nat.mul_succ]; rfl
    have hrest : off + relSize + relSize * n ≤ rel.length := by
      change off + 16 + relSize * n ≤ rel.length
      omega
    unfold relocLoop at h
    rw [uint64At_of_le (by omega), uint64At_of_le (by omega)] at h
    simp only [Bind.bind] at h
    unfold relsFrom targetsOf
    cases hfn : funcBySym.find? (UInt64.ofNat (leAt rel (off + 8) 8) >>> 32).toNat with
    | none =>
      rw [hfn] at h
      rw [filterMap_cons_none (by simp only [hfn, Option.map_none])]
      exact ih hrest hlen h
    | some fn =>
      rw [hfn] at h
      rw [filterMap_cons_some (by simp only [hfn, Option.map_some]; rfl)]
      obtain ⟨patched, hpatched, h⟩ := Outcome.bind_eq_ok.mp h
      obtain ⟨hle, rfl⟩ := relocate_eq_ok hlen hpatched
      obtain ⟨hseqs, hrelocated⟩ := ih hrest ((length_patch hle _).trans_lt hlen) h
      rw [List.length_append, length_singleton] at hseqs hrelocated
      refine ⟨?_, Relocated.cons hle hrelocated⟩
      rw [hseqs, append_assoc]
      rfl

theorem relocSequences_eq_ok {f : File} {b line out : List UInt8} (hlen : line.length < 2 ^ 63)
    {funcBySym : AssocMap Nat Name} {seqs : List Sequence} {rels : List (UInt64 × UInt64)}
    (hrels : acceptedRels f b = some rels) (h : relocSequences f b line funcBySym = .ok (out, seqs)) :
    seqs = windowsFrom 0 (targetsOf funcBySym rels) ∧ Relocated 0 (targetsOf funcBySym rels) line out := by
  unfold acceptedRels at hrels
  unfold relocSequences at h
  cases hsection : f.findSection (ascii ".rel.debug_line") with
  | none =>
    rw [hsection] at h
    cases h
  | some rs =>
    rw [hsection] at h hrels
    cases hrel : readSection f b (ascii ".rel.debug_line") with
    | error e =>
      rw [hrel] at hrels
      cases hrels
    | panic =>
      rw [hrel] at hrels
      cases hrels
    | outOfFuel =>
      rw [hrel] at hrels
      cases hrels
    | ok rel =>
      rw [hrel] at h hrels
      simp only at h hrels
      split at hrels
      · next hgood =>
        obtain ⟨htype, hsize, hcap⟩ := hgood
        obtain rfl := Option.some.inj hrels
        simp only [Bind.bind] at h
        rw [if_neg (not_not.mpr htype), if_neg (not_not.mpr hsize), if_neg (Nat.not_lt.mpr hcap)] at h
        obtain ⟨⟨patched, windows⟩, hloop, h⟩ := Outcome.bind_eq_ok.mp h
        simp only at h
        split at h
        · cases h
        · cases h
          have hmul : 0 + relSize * (rel.length / relSize) ≤ rel.length := by
            rw [Nat.zero_add]
            exact Nat.mul_div_le _ _
          obtain ⟨hseqs, hrelocated⟩ := relocLoop_eq_ok hmul hlen hloop
          exact ⟨hseqs.trans (nil_append _), hrelocated⟩
      · cases hrels

end PerfAgent.CubinFile
