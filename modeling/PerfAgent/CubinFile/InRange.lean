import PerfAgent.CubinFile.Parse

/-!
# Indices of the cubin reader

Where the reader's own slice and index expressions are in range: everywhere but at a relocation whose offset
comes back to the front when the width of the operand is added.
-/

namespace PerfAgent.CubinFile

open List

open Pprof (ascii)

/-! ## Bytes -/

section Access

variable {l : List UInt8} {lo hi : Nat}

theorem sliceAt_of_le (hle : lo ≤ hi) (hhi : hi ≤ l.length) : sliceAt l lo hi = .ok ((l.take hi).drop lo) :=
  if_pos ⟨hle, hhi⟩

theorem sliceAt_of_lt (h : l.length < hi) : sliceAt l lo hi = .panic := if_neg (by omega)

theorem uint64At_of_le (h : lo + 8 ≤ l.length) : uint64At l lo = .ok (UInt64.ofNat (leAt l lo 8)) := by
  unfold uint64At
  rw [sliceAt_of_le (by omega) (Nat.le_refl _), take_length]
  exact if_pos (by rw [length_drop]; omega)

theorem putUint64At_of_le (h : lo + 8 ≤ l.length) (v : UInt64) : putUint64At l lo v = .ok (patch l lo v) := by
  unfold putUint64At
  rw [sliceAt_of_le (by omega) (Nat.le_refl _), take_length]
  exact if_pos (by rw [length_drop]; omega)

theorem length_patch (h : lo + 8 ≤ l.length) (v : UInt64) : (patch l lo v).length = l.length := by
  simp only [patch, List.length_append, length_take, length_leBytes, length_drop]
  omega

theorem leAt_lt (l : List UInt8) (lo : Nat) : leAt l lo 8 < 2 ^ 64 := by
  have hlt : ∀ b : List UInt8, leValue b < 256 ^ b.length := fun b => by
    induction b with
    | nil => exact Nat.one_pos
    | cons x b ih =>
      have hx := x.toNat_lt
      change x.toNat + 256 * leValue b < 256 ^ (b.length + 1)
      rw [Nat.pow_succ]
      omega
  calc leAt l lo 8 < 256 ^ ((l.drop lo).take 8).length := hlt _
    _ ≤ 256 ^ 8 := Nat.pow_le_pow_right (by decide) (length_take_le _ _)
    _ = 2 ^ 64 := by decide

theorem ofNat_leAt_eq_zero_iff : UInt64.ofNat (leAt l lo 8) = 0 ↔ leAt l lo 8 = 0 := by
  rw [← UInt64.toNat_inj, UInt64.toNat_ofNat', Nat.mod_eq_of_lt (leAt_lt l lo)]
  rfl

end Access

theorem readSection_returns (f : File) (b : List UInt8) (name : Name) : (readSection f b name).Returns := by
  unfold readSection
  cases f.findSection name with
  | none => trivial
  | some s =>
    simp only
    split
    · trivial
    · split
      · trivial
      · cases s.data <;> trivial

theorem length_readSection {f : File} {b line : List UInt8} {name : Name} (h : readSection f b name = .ok line) :
    line.length < 2 ^ 63 := by
  unfold readSection at h
  cases hs : f.findSection name with
  | none =>
    simp only [hs, Outcome.ok.injEq] at h
    simp [← h]
  | some s =>
    simp only [hs] at h
    split at h
    · simp only [Outcome.ok.injEq] at h
      simp [← h]
    · split at h
      · cases h
      · cases hd : s.data with
        | none => simp [hd] at h
        | some d =>
          simp only [hd, Outcome.ok.injEq] at h
          exact h ▸ d.short

/-! ## One relocation -/

/-- The end of the operand is past the last 64-bit value, and what is left of it is not past the section. -/
def Wraps (line : List UInt8) (rOffset : UInt64) : Prop :=
  2 ^ 64 ≤ rOffset.toNat + 8 ∧ rOffset.toNat + 8 - 2 ^ 64 ≤ line.length

/-- The relocation is at an operand that is zero, behind the bytes of `DW_LNE_set_address`. -/
def Admits (line : List UInt8) (rOffset : UInt64) : Prop :=
  3 ≤ rOffset.toNat ∧ rOffset.toNat + 8 ≤ line.length ∧
    (line.take rOffset.toNat).drop (rOffset.toNat - 3) = setAddrPrologue ∧ leAt line rOffset.toNat 8 = 0

section Relocate

variable {line : List UInt8} {rOffset : UInt64}

theorem relocOutside_iff (hlen : line.length < 2 ^ 63) (hwraps : ¬Wraps line rOffset) :
    (rOffset < 3 ∨ UInt64.ofNat line.length < rOffset + 8) ↔
      ¬(3 ≤ rOffset.toNat ∧ rOffset.toNat + 8 ≤ line.length) := by
  have hr := rOffset.toNat_lt
  unfold Wraps at hwraps
  rw [UInt64.lt_iff_toNat_lt, UInt64.lt_iff_toNat_lt, UInt64.toNat_ofNat', UInt64.toNat_add]
  change rOffset.toNat < 3 ∨ line.length % 2 ^ 64 < (rOffset.toNat + 8) % 2 ^ 64 ↔ _
  omega

theorem relocate_of_wraps (hlen : line.length < 2 ^ 63) (h : Wraps line rOffset) (base : UInt64) :
    relocate line rOffset base = .panic := by
  have hr := rOffset.toNat_lt
  obtain ⟨hge, hle⟩ := h
  unfold relocate
  rw [if_neg, sliceAt_of_lt (by omega)]
  · rfl
  · rw [UInt64.lt_iff_toNat_lt, UInt64.lt_iff_toNat_lt, UInt64.toNat_ofNat', UInt64.toNat_add]
    change ¬(rOffset.toNat < 3 ∨ line.length % 2 ^ 64 < (rOffset.toNat + 8) % 2 ^ 64)
    omega

theorem toNat_sub_three (h : 3 ≤ rOffset.toNat) : (rOffset - 3).toNat = rOffset.toNat - 3 :=
  UInt64.toNat_sub_of_le _ _ (UInt64.le_iff_toNat_le.mpr h)

theorem relocate_of_admits (hlen : line.length < 2 ^ 63) (h : Admits line rOffset) (base : UInt64) :
    relocate line rOffset base = .ok (patch line rOffset.toNat base) := by
  obtain ⟨hthree, hle, hprologue, hzero⟩ := h
  unfold relocate
  rw [if_neg, toNat_sub_three hthree, sliceAt_of_le (Nat.sub_le _ _) (by omega), hprologue]
  · change (if setAddrPrologue ≠ setAddrPrologue then _ else _) = _
    rw [if_neg (not_not.mpr rfl), uint64At_of_le hle]
    change (if UInt64.ofNat (leAt line rOffset.toNat 8) ≠ 0 then _ else _) = _
    rw [if_neg (not_not.mpr (ofNat_leAt_eq_zero_iff.mpr hzero)), putUint64At_of_le hle]
  · rw [relocOutside_iff hlen (by unfold Wraps; omega)]
    exact not_not.mpr ⟨hthree, hle⟩

theorem relocate_of_not_admits (hlen : line.length < 2 ^ 63) (hwraps : ¬Wraps line rOffset)
    (h : ¬Admits line rOffset) (base : UInt64) : ∃ e, relocate line rOffset base = .error e := by
  unfold relocate
  by_cases hin : 3 ≤ rOffset.toNat ∧ rOffset.toNat + 8 ≤ line.length
  · rw [if_neg (by rw [relocOutside_iff hlen hwraps]; exact not_not.mpr hin), toNat_sub_three hin.1,
      sliceAt_of_le (Nat.sub_le _ _) (by omega)]
    by_cases hprologue : (line.take rOffset.toNat).drop (rOffset.toNat - 3) = setAddrPrologue
    · rw [hprologue]
      change ∃ e, (if setAddrPrologue ≠ setAddrPrologue then _ else _) = _
      rw [if_neg (not_not.mpr rfl), uint64At_of_le hin.2]
      change ∃ e, (if UInt64.ofNat (leAt line rOffset.toNat 8) ≠ 0 then _ else _) = _
      rw [if_pos]
      · exact ⟨_, rfl⟩
      · intro hzero
        exact h ⟨hin.1, hin.2, hprologue, ofNat_leAt_eq_zero_iff.mp hzero⟩
    · change ∃ e, (if (line.take rOffset.toNat).drop (rOffset.toNat - 3) ≠ setAddrPrologue then _ else _) = _
      rw [if_pos hprologue]
      exact ⟨_, rfl⟩
  · rw [if_pos ((relocOutside_iff hlen hwraps).mpr hin)]
    exact ⟨_, rfl⟩

end Relocate

/-! ## The relocations of a section -/

/-- The offset and the info of `n` relocations from `off` on. -/
def relsFrom (rel : List UInt8) : Nat → Nat → List (UInt64 × UInt64)
  | 0, _ => []
  | n + 1, off => (UInt64.ofNat (leAt rel off 8), UInt64.ofNat (leAt rel (off + 8) 8)) :: relsFrom rel n (off + relSize)

/-- No relocation against a device function comes back to the front, of those before and with the first that is
not admitted; `k` of them have been. -/
def NoneWraps (funcBySym : AssocMap Nat Name) : List (UInt64 × UInt64) → List UInt8 → Nat → Prop
  | [], _, _ => True
  | r :: rs, line, k =>
    match funcBySym.find? (r.2 >>> 32).toNat with
    | none => NoneWraps funcBySym rs line k
    | some _ =>
      ¬Wraps line r.1 ∧ (Admits line r.1 → NoneWraps funcBySym rs (patch line r.1.toNat (windowBase k)) (k + 1))

theorem relocLoop_returns_iff (funcBySym : AssocMap Nat Name) {rel : List UInt8} {n off : Nat}
    (hn : off + relSize * n ≤ rel.length) {line : List UInt8} (hlen : line.length < 2 ^ 63) (seqs : List Sequence) :
    (relocLoop funcBySym rel n off line seqs).Returns ↔ NoneWraps funcBySym (relsFrom rel n off) line seqs.length := by
  induction n generalizing off line seqs with
  | zero => exact iff_of_true trivial trivial
  | succ n ih =>
    have hsize : relSize * (n + 1) = relSize * n + 16 := by rw [Nat.mul_succ]; rfl
    have hrest : off + relSize + relSize * n ≤ rel.length := by
      change off + 16 + relSize * n ≤ rel.length
      omega
    unfold relocLoop relsFrom NoneWraps
    rw [uint64At_of_le (by omega), uint64At_of_le (by omega)]
    simp only [Bind.bind]
    cases funcBySym.find? (UInt64.ofNat (leAt rel (off + 8) 8) >>> 32).toNat with
    | none => exact ih hrest hlen seqs
    | some fn =>
      simp only
      by_cases hwraps : Wraps line (UInt64.ofNat (leAt rel off 8))
      · rw [relocate_of_wraps hlen hwraps]
        exact iff_of_false id fun h => h.1 hwraps
      · by_cases hadmits : Admits line (UInt64.ofNat (leAt rel off 8))
        · rw [relocate_of_admits hlen hadmits]
          have hrec := ih hrest ((length_patch hadmits.2.1 (windowBase seqs.length)).trans_lt hlen)
            (seqs ++ [{ fn, base := windowBase seqs.length }])
          rw [List.length_append, length_singleton] at hrec
          change (relocLoop funcBySym rel n (off + relSize)
            (patch line (UInt64.ofNat (leAt rel off 8)).toNat (windowBase seqs.length))
            (seqs ++ [{ fn, base := windowBase seqs.length }])).Returns ↔ _
          rw [hrec]
          exact ⟨fun h => ⟨hwraps, fun _ => h⟩, fun h => h.2 hadmits⟩
        · obtain ⟨e, he⟩ := relocate_of_not_admits hlen hwraps hadmits (windowBase seqs.length)
          rw [he]
          exact iff_of_true trivial ⟨hwraps, fun h => absurd h hadmits⟩

/-- The relocations that the loop is given, if the section is accepted. -/
def acceptedRels (f : File) (b : List UInt8) : Option (List (UInt64 × UInt64)) :=
  match f.findSection (ascii ".rel.debug_line"), readSection f b (ascii ".rel.debug_line") with
  | some rs, .ok rel =>
    if rs.type = shtRel ∧ rel.length % relSize = 0 ∧ rel.length / relSize ≤ maxFunctions then
      some (relsFrom rel (rel.length / relSize) 0)
    else none
  | _, _ => none

theorem relocSequences_returns_iff (f : File) (b : List UInt8) {line : List UInt8} (hlen : line.length < 2 ^ 63)
    (funcBySym : AssocMap Nat Name) :
    (relocSequences f b line funcBySym).Returns ↔
      ∀ rels, acceptedRels f b = some rels → NoneWraps funcBySym rels line 0 := by
  unfold relocSequences acceptedRels
  cases f.findSection (ascii ".rel.debug_line") with
  | none => exact iff_of_true trivial nofun
  | some rs =>
    have hreturns := readSection_returns f b (ascii ".rel.debug_line")
    by_cases htype : rs.type = shtRel
    · simp only [htype, ne_eq, not_true, if_false]
      cases hrel : readSection f b (ascii ".rel.debug_line") with
      | error e => exact iff_of_true trivial nofun
      | panic =>
        rw [hrel] at hreturns
        exact hreturns.elim
      | outOfFuel =>
        rw [hrel] at hreturns
        exact hreturns.elim
      | ok rel =>
        simp only [Bind.bind]
        by_cases hsize : rel.length % relSize = 0
        · by_cases hcap : rel.length / relSize ≤ maxFunctions
          · rw [if_neg (not_not.mpr hsize), if_neg (Nat.not_lt.mpr hcap), if_pos ⟨htype, hsize, hcap⟩]
            have hmul : 0 + relSize * (rel.length / relSize) ≤ rel.length := by
              rw [Nat.zero_add]
              exact Nat.mul_div_le _ _
            have hloop := relocLoop_returns_iff funcBySym hmul hlen []
            rw [length_nil] at hloop
            simp only [Option.some.injEq, forall_eq']
            rw [← hloop]
            cases relocLoop funcBySym rel (rel.length / relSize) 0 line [] with
            | ok r =>
              simp only
              split <;> exact iff_of_true trivial trivial
            | error e => exact iff_of_true trivial trivial
            | panic => exact Iff.rfl
            | outOfFuel => exact Iff.rfl
          · rw [if_neg (not_not.mpr hsize), if_pos (Nat.not_le.mp hcap), if_neg fun h => hcap h.2.2]
            exact iff_of_true trivial nofun
        · rw [if_pos hsize, if_neg fun h => hsize h.2.1]
          exact iff_of_true trivial nofun
    · simp only
      rw [if_pos htype]
      refine iff_of_true trivial fun rels h => ?_
      split at h
      · next heq _ =>
        obtain rfl := Option.some.inj heq
        rw [if_neg fun h => htype h.1] at h
        cases h
      · cases h

/-! ## Rows -/

theorem fileRow_returns (size : AssocMap Name UInt64) (seqs : List Sequence) (ent : LineEntry) :
    (fileRow size seqs ent).Returns := by
  unfold fileRow
  simp only
  split
  · trivial
  · next hidx =>
    have hlt : ((ent.address >>> seqShift).toNat - 1 : Int).toNat < seqs.length := by omega
    rw [getElem?_eq_getElem hlt]
    simp only
    split <;> trivial

theorem fileRows_returns (size : AssocMap Name UInt64) (seqs : List Sequence) (ents : List LineEntry) :
    (fileRows size seqs ents).Returns := by
  induction ents with
  | nil => trivial
  | cons ent ents ih => exact (fileRow_returns size seqs ent).bind fun r _ => ih.bind fun rs _ => trivial

theorem buildLineTable_returns_iff (libs : Libraries) (size : AssocMap Name UInt64) (f : File) (b line : List UInt8)
    (funcBySym : AssocMap Nat Name) :
    (buildLineTable libs size f b line funcBySym).Returns ↔ (relocSequences f b line funcBySym).Returns := by
  unfold buildLineTable
  rw [Outcome.returns_bind_iff]
  refine and_iff_left fun r _ => ?_
  obtain ⟨patched, seqs⟩ := r
  simp only
  cases libs.readLines patched with
  | error e => trivial
  | ok ents => exact fileRows_returns size seqs ents

/-! ## The module -/

def Reports {α : Type} (x : Outcome Err α) : Prop := x.Returns ∧ x ≠ .error .errPanic

theorem Reports.bind {α β : Type} {x : Outcome Err α} {f : α → Outcome Err β} (hx : Reports x)
    (hf : ∀ a, x = .ok a → Reports (f a)) : Reports (x >>= f) := by
  cases x with
  | ok a => exact hf a rfl
  | error e => exact ⟨trivial, fun h => hx.2 (by cases h; rfl)⟩
  | panic => exact hx.1.elim
  | outOfFuel => exact hx.1.elim

theorem readSection_reports (f : File) (b : List UInt8) (name : Name) : Reports (readSection f b name) := by
  refine ⟨readSection_returns f b name, ?_⟩
  unfold readSection
  cases f.findSection name with
  | none => nofun
  | some s =>
    simp only
    split
    · nofun
    · split
      · nofun
      · cases s.data <;> nofun

theorem symbol_reports (f : File) (a : Admitted) (i : Nat) (s : Symbol) : Reports (a.symbol f i s) := by
  unfold Admitted.symbol
  split
  · exact ⟨trivial, by simp⟩
  · split
    · exact ⟨trivial, by simp⟩
    · split <;> exact ⟨trivial, by simp⟩

theorem admitSymbols_reports (f : File) (i : Nat) (syms : List Symbol) (a : Admitted) :
    Reports (admitSymbols f i syms a) := by
  induction syms generalizing i a with
  | nil => exact ⟨trivial, nofun⟩
  | cons s syms ih => exact (symbol_reports f a i s).bind fun a _ => ih (i + 1) a

structure Libraries.ReachesLines (libs : Libraries) (b : List UInt8) (f : File) (a : Admitted) (line : List UInt8) :
    Prop where
  file : libs.newFile b = some f
  machine : f.machine = emCUDA
  encoding : f.elfClass = elfClass64 ∧ f.encoding = elfData2LSB
  admitted : ∃ syms, f.symbols = some syms ∧ admitSymbols f 0 syms {} = .ok a
  section_ : readSection f b (ascii ".debug_line") = .ok line
  nonempty : line ≠ []

section Parse

variable {libs : Libraries} {b : List UInt8}

theorem parseFile_of_reaches {f : File} {a : Admitted} {line : List UInt8} (h : libs.ReachesLines b f a line) :
    parseFile libs b = withLines libs f b a := by
  obtain ⟨syms, hsyms, ha⟩ := h.admitted
  unfold parseFile
  rw [h.file]
  simp only
  rw [if_neg (not_not.mpr h.machine), if_neg (by rintro (hc | he); exacts [hc h.encoding.1, he h.encoding.2]), hsyms]
  simp only
  rw [ha]
  rfl

theorem parseFile_reports (h : ∀ f a line, libs.ReachesLines b f a line → Reports (withLines libs f b a)) :
    Reports (parseFile libs b) := by
  unfold parseFile
  cases hfile : libs.newFile b with
  | none => exact ⟨trivial, nofun⟩
  | some f =>
    simp only
    split
    · exact ⟨trivial, nofun⟩
    · next hmachine =>
      split
      · exact ⟨trivial, nofun⟩
      · next hencoding =>
        cases hsyms : f.symbols with
        | none => exact ⟨trivial, nofun⟩
        | some syms =>
          refine (admitSymbols_reports f 0 syms {}).bind fun a ha => ?_
          have hr := readSection_reports f b (ascii ".debug_line")
          cases hline : readSection f b (ascii ".debug_line") with
          | error e =>
            unfold withLines
            rw [hline] at hr ⊢
            exact ⟨trivial, fun he => hr.2 (by cases he; rfl)⟩
          | panic =>
            rw [hline] at hr
            exact hr.1.elim
          | outOfFuel =>
            rw [hline] at hr
            exact hr.1.elim
          | ok line =>
            by_cases hnil : line = []
            · unfold withLines
              rw [hline, hnil]
              exact ⟨trivial, nofun⟩
            · exact h f a line ⟨hfile, not_not.mp hmachine,
                ⟨not_not.mp fun hc => hencoding (.inl hc), not_not.mp fun he => hencoding (.inr he)⟩,
                ⟨syms, hsyms, ha⟩, hline, hnil⟩

theorem withLines_eq {f : File} {a : Admitted} {line : List UInt8} (h : libs.ReachesLines b f a line) :
    withLines libs f b a =
      match buildLineTable libs a.size f b line a.funcBySym with
      | .ok rows =>
        .ok
          { funcs := a.funcs.map fun fn => { fn with hasLineInfo := tableOf rows fn.name ≠ [] }
            rows, size := a.size, hasDebugLine := true }
      | .error e => .ok { funcs := a.funcs, size := a.size, hasDebugLine := true, lineErr := some e }
      | .panic => .panic
      | .outOfFuel => .outOfFuel := by
  unfold withLines
  rw [h.section_]
  refine (if_neg h.nonempty).trans ?_
  cases buildLineTable libs a.size f b line a.funcBySym <;> rfl

/-- No slice or index of the reader is out of range: an error of the line table leaves the functions, and no panic
is there to be recovered from. -/
structure Libraries.InRange (libs : Libraries) (b : List UInt8) : Prop where
  sections : ∀ f name, (readSection f b name).Returns
  tables : ∀ f a line, libs.ReachesLines b f a line →
    (relocSequences f b line a.funcBySym).Returns ∧ (buildLineTable libs a.size f b line a.funcBySym).Returns
  survives : ∀ f a line e, libs.ReachesLines b f a line → buildLineTable libs a.size f b line a.funcBySym = .error e →
      parse libs b = .ok { funcs := a.funcs, size := a.size, hasDebugLine := true, lineErr := some e }
  parsed : parse libs b ≠ .error .errPanic

theorem parse_ne_errPanic (h : Reports (parseFile libs b)) : parse libs b ≠ .error .errPanic := by
  unfold parse
  cases hp : parseFile libs b with
  | ok c => nofun
  | error e =>
    rw [hp] at h
    intro he
    exact h.2 (by cases he; rfl)
  | panic =>
    rw [hp] at h
    exact h.1.elim
  | outOfFuel =>
    rw [hp] at h
    exact h.1.elim

/-- The reader stays in range unless a relocation that the loop gets to comes back to the front. -/
theorem inRange_iff (libs : Libraries) (b : List UInt8) :
    libs.InRange b ↔ ∀ f a line rels, libs.ReachesLines b f a line → acceptedRels f b = some rels →
      NoneWraps a.funcBySym rels line 0 := by
  constructor
  · intro h f a line rels hreach hrels
    exact (relocSequences_returns_iff f b (length_readSection hreach.section_) a.funcBySym).mp
      (h.tables f a line hreach).1 rels hrels
  · intro h
    have htables : ∀ f a line, libs.ReachesLines b f a line → (relocSequences f b line a.funcBySym).Returns ∧
          (buildLineTable libs a.size f b line a.funcBySym).Returns := fun f a line hreach => by
      have hrel := (relocSequences_returns_iff f b (length_readSection hreach.section_) a.funcBySym).mpr
        fun rels => h f a line rels hreach
      exact ⟨hrel, (buildLineTable_returns_iff libs a.size f b line a.funcBySym).mpr hrel⟩
    refine ⟨fun f => readSection_returns f b, htables, fun f a line e hreach he => ?_,
      parse_ne_errPanic (parseFile_reports fun f a line hreach => ?_)⟩
    · unfold parse
      rw [parseFile_of_reaches hreach, withLines_eq hreach, he]
    · have hbuild := (htables f a line hreach).2
      rw [withLines_eq hreach]
      cases ht : buildLineTable libs a.size f b line a.funcBySym with
      | ok rows => exact ⟨trivial, nofun⟩
      | error e => exact ⟨trivial, nofun⟩
      | panic =>
        rw [ht] at hbuild
        exact hbuild.elim
      | outOfFuel =>
        rw [ht] at hbuild
        exact hbuild.elim

end Parse

/-- A relocation against the first symbol, eight before the end of the 64-bit values. -/
def wrappedRel : List UInt8 := leBytes 8 (2 ^ 64 - 8) ++ leBytes 8 (2 ^ 32)

theorem wrappedRel_short : wrappedRel.length < 2 ^ 63 := by decide

theorem oneByte_short : [(1 : UInt8)].length < 2 ^ 63 := by decide

/-- A module with one function, a line section of one byte and the relocation behind it. -/
def wrappedRelocation : Libraries where
  newFile _ := some
    { machine := emCUDA, elfClass := elfClass64, encoding := elfData2LSB
      symbols := some [{ name := ascii "k", info := sttFunc, size := 16 }]
      sections :=
        [{ name := ascii ".debug_line", type := 1, fileSize := 1, data := some ⟨[1], oneByte_short⟩ },
          { name := ascii ".rel.debug_line", type := shtRel, offset := 1, fileSize := 16
            data := some ⟨wrappedRel, wrappedRel_short⟩ }] }
  readLines _ := .ok []

/-- The module is lost to a panic. -/
theorem not_inRange_wrappedRelocation : ¬wrappedRelocation.InRange (1 :: wrappedRel) :=
  fun h => h.parsed rfl

end PerfAgent.CubinFile
