import PerfAgent.Gpu.Types
import PerfAgent.Lib.Runes
import PerfAgent.Pprof.Frames

/-!
# The PC-sampling setting, read twice

The agent reads a setting as Go text and writes it to an environment variable
(`ParsePCSamplingTier` of `gpu/tier.go`), and the shim reads the variable byte by byte
(`pc_tier_parse` of `shim/core/pctier.h`).  Both split the value at the same six bytes and know
the same names.

They differ in what they take for a letter's other case: the shim folds the letters of ASCII,
and the agent every rune that has a lower case, of which `İ` has the `i`.  So the two agree
exactly on the values that do not spell one tier with that letter.
-/

namespace PerfAgent.Shim

open Gpu (PCSamplingTier)
open Pprof (ascii)
open Text

def tierSeparator (c : Nat) : Bool :=
  c = 0x2c || c = 0x2b || c = 0x3b || c = 0x20 || c = 0x09 || c = 0x0a

/-! ## The agent -/

/-- `strings.ToLower`, where `toLower` is `unicode.ToLower`. -/
def stringsToLower (toLower : Nat → Nat) (s : List UInt8) : List UInt8 :=
  (runes s).flatMap fun r => encodeRune (toLower r.code)

def pcSamplingTierByName (tok : List UInt8) : Option PCSamplingTier :=
  if tok = ascii "off" ∨ tok = ascii "0" then some .off
  else if tok = ascii "continuous" ∨ tok = ascii "1" then some .continuous
  else if tok = ascii "serialized" ∨ tok = ascii "2" then some .serialized
  else none

/-- `ErrPCSamplingUnknownTier` and `ErrPCSamplingTiersExclusive`, with what they quote. -/
inductive PCSamplingError
  | unknownTier (tok : List UInt8)
  | tiersExclusive (value : List UInt8) (named : List PCSamplingTier)
  deriving DecidableEq

def tierTokens (value : List UInt8) : List (List UInt8) :=
  (fieldsFunc (fun r : Rune => tierSeparator r.code) [] (runes value)).map (·.flatMap Rune.bytes)

def collectTiers (toLower : Nat → Nat) :
    List (List UInt8) → List PCSamplingTier → Except PCSamplingError (List PCSamplingTier)
  | [], set => .ok set
  | tok :: toks, set =>
    match pcSamplingTierByName (stringsToLower toLower tok) with
    | none => .error (.unknownTier tok)
    | some tier => collectTiers toLower toks (if tier ∈ set then set else set ++ [tier])

def parsePCSamplingTier (toLower : Nat → Nat) (value : List UInt8) : PCSamplingTier × Option PCSamplingError :=
  if tierTokens value = [] then (.off, none)
  else
    match collectTiers toLower (tierTokens value) [] with
    | .error e => (.off, some e)
    | .ok set =>
      if 1 < set.length then (.off, some (.tiersExclusive value set))
      else (set.headD .off, none)

/-! ## The shim -/

inductive PCTierParse
  | ok
  | unknown
  | notExclusive
  deriving DecidableEq

/-- What `pc_tier_parse` returns, and what it writes: the tier, and the text for the log line. -/
structure PCTierResult where
  parse : PCTierParse
  out : PCSamplingTier
  bad : List UInt8 := []
  deriving DecidableEq

def foldCase (c : UInt8) : UInt8 := if 0x41 ≤ c ∧ c ≤ 0x5a then c - 0x41 + 0x61 else c

def tierNames : List (List UInt8 × PCSamplingTier) :=
  [(ascii "off", .off), (ascii "0", .off), (ascii "continuous", .continuous), (ascii "1", .continuous),
    (ascii "serialized", .serialized), (ascii "2", .serialized)]

def pcTierToken (tok : List UInt8) : Option PCSamplingTier :=
  (tierNames.find? fun n => n.1.length = tok.length ∧ tok.map foldCase = n.1).map Prod.snd

/-- A text cut to a buffer of `badlen` bytes, the last of which is its end. -/
def quoted (badlen : Nat) (text : List UInt8) : List UInt8 := text.take (badlen - 1)

/-- The loop of `pc_tier_parse` at `p`; `first` is the tier of the first token. -/
def pcTierLoop (value : List UInt8) (badlen : Nat) (first : Option PCSamplingTier) (p : List UInt8) : PCTierResult :=
  match _hp : p.dropWhile fun c => tierSeparator c.toNat with
  | [] => { parse := .ok, out := first.getD .off }
  | c :: p' =>
    if c = 0 then { parse := .ok, out := first.getD .off }
    else
      -- the byte that has ended the separators is the token's first
      let tok := c :: p'.takeWhile fun c => c ≠ 0 && !tierSeparator c.toNat
      match pcTierToken tok with
      | none => { parse := .unknown, out := .off, bad := quoted badlen tok }
      | some tier =>
        if first = none ∨ first = some tier then
          pcTierLoop value badlen (some tier) (p'.dropWhile fun c => c ≠ 0 && !tierSeparator c.toNat)
        else { parse := .notExclusive, out := .off, bad := quoted badlen (value.takeWhile (· ≠ 0)) }
termination_by p.length
decreasing_by
  have hle := (List.dropWhile_suffix (l := p) fun c => tierSeparator c.toNat).length_le
  have hle' := (List.dropWhile_suffix (l := p') fun c => c ≠ 0 && !tierSeparator c.toNat).length_le
  rw [_hp, List.length_cons] at hle
  omega

/-- `pc_tier_parse`, of the variable's value if it is set. -/
def pcTierParse (value : Option (List UInt8)) (badlen : Nat) : PCTierResult :=
  match value with
  | none => { parse := .ok, out := .off }
  | some value => pcTierLoop value badlen none value

/-! ## What both accept -/

variable {toks : List (List UInt8)}

/-- The tokens name no tier but `t`; no tokens are `off`. -/
def OneTier (byName : List UInt8 → Option PCSamplingTier) (toks : List (List UInt8)) (t : PCSamplingTier) : Prop :=
  if toks = [] then t = .off else ∀ tok ∈ toks, byName tok = some t

section Agent

variable (toLower : Nat → Nat)

def agentTier (tok : List UInt8) : Option PCSamplingTier := pcSamplingTierByName (stringsToLower toLower tok)

variable {toLower}

theorem collectTiers_eq_ok {set s : List PCSamplingTier} (h : collectTiers toLower toks set = .ok s) :
    set ⊆ s ∧ ∀ tok ∈ toks, ∃ tier ∈ s, agentTier toLower tok = some tier := by
  induction toks generalizing set with
  | nil =>
    cases h
    exact ⟨fun _ => id, nofun⟩
  | cons tok toks ih =>
    rw [collectTiers] at h
    cases htok : pcSamplingTierByName (stringsToLower toLower tok) with
    | none =>
      rw [htok] at h
      cases h
    | some tier =>
      rw [htok] at h
      obtain ⟨hset, htoks⟩ := ih h
      have hkept : set ⊆ (if tier ∈ set then set else set ++ [tier]) ∧
          tier ∈ (if tier ∈ set then set else set ++ [tier]) := by
        split
        · next hmem => exact ⟨fun _ => id, hmem⟩
        · exact ⟨List.subset_append_left _ _, List.mem_append_right _ List.mem_cons_self⟩
      exact ⟨fun _ hx => hset (hkept.1 hx), List.forall_mem_cons.mpr ⟨⟨tier, hset hkept.2, htok⟩, htoks⟩⟩

theorem collectTiers_one {t : PCSamplingTier} {set : List PCSamplingTier}
    (h : ∀ tok ∈ toks, agentTier toLower tok = some t) (hset : set = [] ∨ set = [t]) :
    collectTiers toLower toks set = .ok (if toks = [] then set else [t]) := by
  induction toks generalizing set with
  | nil => rfl
  | cons tok toks ih =>
    obtain ⟨htok, hrest⟩ := List.forall_mem_cons.mp h
    have hone : (if t ∈ set then set else set ++ [t]) = [t] := by
      obtain rfl | rfl := hset <;> simp
    rw [collectTiers, show pcSamplingTierByName (stringsToLower toLower tok) = some t from htok]
    dsimp only
    rw [hone, ih hrest (.inr rfl), ite_self, if_neg (List.cons_ne_nil _ _)]

theorem parsePCSamplingTier_iff (value : List UInt8) (t : PCSamplingTier) :
    parsePCSamplingTier toLower value = (t, none) ↔ OneTier (agentTier toLower) (tierTokens value) t := by
  unfold parsePCSamplingTier OneTier
  split
  · exact ⟨fun h => (congrArg Prod.fst h).symm, fun h => h ▸ rfl⟩
  · next hne =>
    constructor
    · intro h
      split at h
      · cases h
      · next set hset =>
        split at h
        · cases h
        · next hlen =>
          cases h
          intro tok htok
          obtain ⟨tier, hmem, heq⟩ := (collectTiers_eq_ok hset).2 tok htok
          match set, hmem, hlen with
          | [tier'], hmem, _ => exact List.mem_singleton.mp hmem ▸ heq
          | _ :: _ :: _, _, hlen => exact absurd (Nat.succ_lt_succ (Nat.zero_lt_succ _)) hlen
    · intro h
      rw [collectTiers_one h (.inl rfl), if_neg hne]
      rfl

theorem agentOff_of_error (value : List UInt8) (h : (parsePCSamplingTier toLower value).2 ≠ none) :
    (parsePCSamplingTier toLower value).1 = .off := by
  unfold parsePCSamplingTier at h ⊢
  split
  · rfl
  · next hne =>
    rw [if_neg hne] at h
    split
    · rfl
    · next set hset =>
      rw [hset] at h
      dsimp only at h
      split
      · rfl
      · next hlen => exact absurd (by rw [if_neg hlen]) h

end Agent

section Shim

variable {value : List UInt8} {badlen : Nat}

theorem tierTokens_eq (value : List UInt8) :
    tierTokens value = fieldsFunc (fun c : UInt8 => tierSeparator c.toNat) [] value := by
  refine fieldsFunc_runes (fun n hn => ?_) value
  simp only [tierSeparator, Bool.or_eq_false_iff, decide_eq_false_iff_not]
  omega

theorem tokenByte_eq {l : List UInt8} (h : 0 ∉ l) :
    (l.takeWhile fun c => c ≠ 0 && !tierSeparator c.toNat) = (l.takeWhile fun c => !tierSeparator c.toNat) ∧
      (l.dropWhile fun c => c ≠ 0 && !tierSeparator c.toNat) = (l.dropWhile fun c => !tierSeparator c.toNat) := by
  induction l with
  | nil => exact ⟨rfl, rfl⟩
  | cons c l ih =>
    have hc : c ≠ 0 := fun hc => h (hc ▸ List.mem_cons_self)
    obtain ⟨htake, hdrop⟩ := ih fun hmem => h (List.mem_cons_of_mem _ hmem)
    simp only [List.takeWhile_cons, List.dropWhile_cons, htake, hdrop, hc, ne_eq, not_false_eq_true, decide_true,
      Bool.true_and, and_self]

theorem pcTierLoop_iff {first : Option PCSamplingTier} {p : List UInt8} (h : 0 ∉ p) (t : PCSamplingTier) :
    ((pcTierLoop value badlen first p).parse = .ok ∧ (pcTierLoop value badlen first p).out = t) ↔
      (fieldsFunc (fun c : UInt8 => tierSeparator c.toNat) [] p = [] → t = first.getD .off) ∧
      (fieldsFunc (fun c : UInt8 => tierSeparator c.toNat) [] p ≠ [] → first = none ∨ first = some t) ∧
      ∀ tok ∈ fieldsFunc (fun c : UInt8 => tierSeparator c.toNat) [] p, pcTierToken tok = some t := by
  have hrest : ∀ {p p' : List UInt8} {c : UInt8}, 0 ∉ p →
      (p.dropWhile fun c => tierSeparator c.toNat) = c :: p' → 0 ∉ p' :=
    fun h hp hmem => h ((List.dropWhile_sublist _).subset (hp ▸ List.mem_cons_of_mem _ hmem))
  fun_induction pcTierLoop value badlen first p with
  | case1 first p hp =>
    rw [fieldsFunc_of_dropWhile_eq_nil hp]
    simp [eq_comm]
  | case2 first p p' hp =>
    have hmem : (0 : UInt8) ∈ p.dropWhile fun c => tierSeparator c.toNat := hp ▸ List.mem_cons_self
    exact absurd ((List.dropWhile_sublist _).subset hmem) h
  | case3 first p c p' hp hc tok htok =>
    obtain ⟨htake, -⟩ := tokenByte_eq (hrest h hp)
    rw [fieldsFunc_of_dropWhile_eq_cons hp, ← htake]
    refine iff_of_false nofun fun hall => ?_
    exact absurd (htok.symm.trans (hall.2.2 tok List.mem_cons_self)) nofun
  | case4 first p c p' hp hc tok tier htok hfirst ih =>
    obtain ⟨htake, hdrop⟩ := tokenByte_eq (hrest h hp)
    have hnext := ih fun hmem => hrest h hp ((List.dropWhile_sublist _).subset hmem)
    rw [fieldsFunc_of_dropWhile_eq_cons hp, ← htake, ← hdrop, List.forall_mem_cons]
    refine hnext.trans ⟨?_, ?_⟩
    · rintro ⟨hnil, hcons, hall⟩
      have ht : t = tier := by
        by_cases hempty : fieldsFunc (fun c : UInt8 => tierSeparator c.toNat) []
            (p'.dropWhile fun c => c ≠ 0 && !tierSeparator c.toNat) = []
        · exact hnil hempty
        · simpa [eq_comm] using hcons hempty
      subst ht
      exact ⟨nofun, fun _ => hfirst, htok, hall⟩
    · rintro ⟨-, -, htok', hall⟩
      cases htok.symm.trans htok'
      exact ⟨fun _ => rfl, fun _ => .inr rfl, hall⟩
  | case5 first p c p' hp hc tok tier htok hfirst =>
    obtain ⟨htake, -⟩ := tokenByte_eq (hrest h hp)
    rw [fieldsFunc_of_dropWhile_eq_cons hp, ← htake]
    refine iff_of_false nofun fun hall => hfirst ?_
    cases htok.symm.trans (hall.2.2 tok List.mem_cons_self)
    exact hall.2.1 (List.cons_ne_nil _ _)

theorem pcTierParse_iff (h : 0 ∉ value) (t : PCSamplingTier) :
    ((pcTierParse (some value) badlen).parse = .ok ∧ (pcTierParse (some value) badlen).out = t) ↔
      OneTier pcTierToken (tierTokens value) t := by
  rw [tierTokens_eq, OneTier, pcTierParse, pcTierLoop_iff h t]
  split
  · next hnil => simp [hnil]
  · next hne => simp [hne]

theorem shimOff_of_error (value : List UInt8) (badlen : Nat) (first : Option PCSamplingTier) (p : List UInt8)
    (h : (pcTierLoop value badlen first p).parse ≠ .ok) : (pcTierLoop value badlen first p).out = .off := by
  fun_induction pcTierLoop value badlen first p with
  | case1 => exact absurd rfl h
  | case2 => exact absurd rfl h
  | case3 => rfl
  | case4 first p c p' hp hc tok tier htok hfirst ih => exact ih h
  | case5 => rfl

end Shim

/-! ## Where they agree -/

/-- What `unicode.ToLower` makes of the letters of ASCII, and which other runes it takes there. -/
structure UnicodeLower (toLower : Nat → Nat) : Prop where
  ascii : ∀ b : UInt8, b < 0x80 → toLower b.toNat = (foldCase b).toNat
  dotted : toLower 0x130 = 0x69
  kelvin : toLower 0x212a = 0x6b
  other : ∀ r, 0x80 ≤ r → r ≠ 0x130 → r ≠ 0x212a → 0x80 ≤ toLower r

/-- A token has the letter `İ`. -/
def Dotted (tok : List UInt8) : Prop := ∃ r ∈ runes tok, r.code = 0x130

/-- The two readings of a value agree: they accept the same tier, an error leaves it off, and two
tiers named in it are an error. -/
structure Agree (toLower : Nat → Nat) (badlen : Nat) (value : List UInt8) : Prop where
  accepts : ∀ t, parsePCSamplingTier toLower value = (t, none) ↔
    (pcTierParse (some value) badlen).parse = .ok ∧ (pcTierParse (some value) badlen).out = t
  agentOff : (parsePCSamplingTier toLower value).2 ≠ none → (parsePCSamplingTier toLower value).1 = .off
  shimOff : (pcTierParse (some value) badlen).parse ≠ .ok → (pcTierParse (some value) badlen).out = .off
  exclusive : ∀ tok ∈ tierTokens value, ∀ tok' ∈ tierTokens value, ∀ t t', agentTier toLower tok = some t →
    agentTier toLower tok' = some t' → t ≠ t' →
      (parsePCSamplingTier toLower value).2 ≠ none ∧ (pcTierParse (some value) badlen).parse ≠ .ok

theorem lt_of_mem_name {tok : List UInt8} {t : PCSamplingTier} (h : pcSamplingTierByName tok = some t) :
    ∀ c ∈ tok, c < 0x80 ∧ c ≠ 0x6b := by
  have hnames : ∀ n ∈ tierNames, ∀ c ∈ n.1, c < 0x80 ∧ c ≠ 0x6b := by decide +kernel
  have hmem : (tok, t) ∈ tierNames := by
    unfold pcSamplingTierByName at h
    split_ifs at h with h₀ h₁ h₂ <;> cases h
    · obtain rfl | rfl := h₀ <;> decide
    · obtain rfl | rfl := h₁ <;> decide
    · obtain rfl | rfl := h₂ <;> decide
  exact hnames _ hmem

theorem pcTierToken_eq (tok : List UInt8) : pcTierToken tok = pcSamplingTierByName (tok.map foldCase) := by
  have hlen : ∀ n : List UInt8, (n.length = tok.length ∧ tok.map foldCase = n) ↔ tok.map foldCase = n :=
    fun n => and_iff_right_of_imp fun h => h ▸ List.length_map _
  unfold pcTierToken
  simp only [hlen]
  generalize tok.map foldCase = name
  by_cases hname : name ∈ tierNames.map Prod.fst
  · simp only [tierNames, List.map_cons, List.map_nil, List.mem_cons, List.not_mem_nil, or_false] at hname
    obtain rfl | rfl | rfl | rfl | rfl | rfl := hname <;> decide
  · have hnone : tierNames.find? (fun n => name = n.1) = none :=
      List.find?_eq_none.mpr fun n hn heq => hname (of_decide_eq_true heq ▸ List.mem_map_of_mem hn)
    rw [hnone]
    simp only [tierNames, List.map_cons, List.map_nil, List.mem_cons, List.not_mem_nil, or_false, not_or] at hname
    simp [pcSamplingTierByName, hname]

theorem le_foldCase {c : UInt8} (h : 0x80 ≤ c) : foldCase c = c := by
  refine if_neg fun hc => ?_
  rw [UInt8.le_iff_toNat_le] at h hc
  exact absurd (h.trans (UInt8.le_iff_toNat_le.mp hc.2)) (by decide)

theorem lt_of_pcTierToken {tok : List UInt8} {t : PCSamplingTier} (h : pcTierToken tok = some t) :
    ∀ c ∈ tok, c < 0x80 := by
  intro c hc
  rw [pcTierToken_eq] at h
  by_contra hle
  have hmem := lt_of_mem_name h (foldCase c) (List.mem_map_of_mem hc)
  rw [le_foldCase (UInt8.not_lt.mp hle)] at hmem
  exact hle hmem.1

section Agreement

variable {toLower : Nat → Nat} (hlower : UnicodeLower toLower)
include hlower

theorem stringsToLower_of_lt {tok : List UInt8} (h : ∀ c ∈ tok, c < 0x80) :
    stringsToLower toLower tok = tok.map foldCase := by
  have hfold : ∀ n < 128, (foldCase (.ofNat n)).toNat < 0x80 := by decide
  rw [stringsToLower, runes_of_lt h, List.flatMap_map, List.map_eq_flatMap]
  refine List.flatMap_congr fun c hc => ?_
  have hlt := hfold c.toNat (UInt8.lt_iff_toNat_lt.mp (h c hc))
  rw [UInt8.ofNat_toNat] at hlt
  rw [hlower.ascii c (h c hc), encodeRune, if_pos hlt, UInt8.ofNat_toNat]

theorem dotted_of_agentTier {tok : List UInt8} {t : PCSamplingTier} (h : agentTier toLower tok = some t)
    (hhigh : ¬∀ c ∈ tok, c < 0x80) : Dotted tok := by
  simp only [not_forall] at hhigh
  obtain ⟨c, hc, hle⟩ := hhigh
  have hbytes := flatMap_runesFrom 0 tok
  rw [List.drop_zero] at hbytes
  obtain ⟨r, hr, hmem⟩ := List.mem_flatMap.mp (hbytes.symm ▸ hc)
  obtain ⟨b, hb, rfl⟩ | ⟨hcode, -, -⟩ := whole_runesFrom 0 tok r hr
  · cases List.mem_singleton.mp hmem
    exact absurd hb hle
  · -- what the rune becomes is in a name
    have hname : ∀ c ∈ encodeRune (toLower r.code), c < 0x80 ∧ c ≠ 0x6b :=
      fun c hc => lt_of_mem_name h c (List.mem_flatMap.mpr ⟨r, hr, hc⟩)
    by_cases hdot : r.code = 0x130
    · exact ⟨r, hr, hdot⟩
    · by_cases hkelvin : r.code = 0x212a
      · rw [hkelvin, hlower.kelvin] at hname
        exact absurd rfl (hname 0x6b List.mem_cons_self).2
      · obtain ⟨c, hc, hle⟩ := exists_le_encodeRune (hlower.other r.code hcode hdot hkelvin)
        exact absurd (hname c hc).1 (UInt8.not_lt.mpr hle)

omit hlower in
theorem not_dotted_of_lt {tok : List UInt8} (h : ∀ c ∈ tok, c < 0x80) : ¬Dotted tok := by
  rintro ⟨r, hr, hdot⟩
  rw [runes_of_lt h] at hr
  obtain ⟨c, hc, rfl⟩ := List.mem_map.mp hr
  have hlt := UInt8.lt_iff_toNat_lt.mp (h c hc)
  rw [show c.toNat = 0x130 from hdot] at hlt
  exact absurd hlt (by decide)

theorem pcTierToken_iff (tok : List UInt8) (t : PCSamplingTier) :
    pcTierToken tok = some t ↔ agentTier toLower tok = some t ∧ ¬Dotted tok := by
  by_cases hlt : ∀ c ∈ tok, c < 0x80
  · rw [and_iff_left (not_dotted_of_lt hlt), agentTier, stringsToLower_of_lt hlower hlt, pcTierToken_eq]
  · exact iff_of_false (fun h => hlt (lt_of_pcTierToken h)) fun h => h.2 (dotted_of_agentTier hlower h.1 hlt)

/-- The agent and the shim read a value alike unless all its tokens are names of one tier to the
agent, and one of them has an `İ`. -/
theorem agree_iff {value : List UInt8} (h : 0 ∉ value) (badlen : Nat) :
    Agree toLower badlen value ↔ ∀ t, (∀ tok ∈ tierTokens value, agentTier toLower tok = some t) →
      ∀ tok ∈ tierTokens value, ¬Dotted tok := by
  constructor
  · intro hagree t hall tok htok
    have hne : tierTokens value ≠ [] := List.ne_nil_of_mem htok
    have hagent : OneTier (agentTier toLower) (tierTokens value) t := by
      rw [OneTier, if_neg hne]
      exact hall
    have hshim := (pcTierParse_iff h t).mp ((hagree.accepts t).mp ((parsePCSamplingTier_iff value t).mpr hagent))
    rw [OneTier, if_neg hne] at hshim
    exact ((pcTierToken_iff hlower tok t).mp (hshim tok htok)).2
  · intro hplain
    have hsame : ∀ t, OneTier (agentTier toLower) (tierTokens value) t ↔ OneTier pcTierToken (tierTokens value) t := by
      intro t
      unfold OneTier
      split
      · rfl
      · simp only [pcTierToken_iff hlower]
        exact ⟨fun hall tok htok => ⟨hall tok htok, hplain t hall tok htok⟩, fun hall tok htok => (hall tok htok).1⟩
    have hone : ∀ {t t' x tok tok'}, OneTier (agentTier toLower) (tierTokens value) x → tok ∈ tierTokens value →
        tok' ∈ tierTokens value → agentTier toLower tok = some t → agentTier toLower tok' = some t' → t = t' := by
      intro t t' x tok tok' hx htok htok' ht ht'
      rw [OneTier, if_neg (List.ne_nil_of_mem htok)] at hx
      exact Option.some.inj ((ht.symm.trans (hx tok htok)).trans ((hx tok' htok').symm.trans ht'))
    constructor
    case accepts => exact fun t => (parsePCSamplingTier_iff value t).trans ((hsame t).trans (pcTierParse_iff h t).symm)
    case agentOff => exact agentOff_of_error value
    case shimOff => exact shimOff_of_error value badlen none value
    case exclusive =>
      refine fun tok htok tok' htok' t t' ht ht' hne => ⟨fun hok => hne ?_, fun hok => hne ?_⟩
      · exact hone ((parsePCSamplingTier_iff value _).mp (Prod.ext rfl hok)) htok htok' ht ht'
      · exact hone ((hsame _).mpr ((pcTierParse_iff h _).mp ⟨hok, rfl⟩)) htok htok' ht ht'

end Agreement

/-- `unicode.ToLower`, of ASCII and of the two runes that come to a letter of it. -/
def lowerInto (r : Nat) : Nat :=
  if r < 0x80 then (foldCase (.ofNat r)).toNat else if r = 0x130 then 0x69 else if r = 0x212a then 0x6b else r

theorem unicodeLower_lowerInto : UnicodeLower lowerInto where
  ascii b hb := by
    have hlt : b.toNat < 0x80 := UInt8.lt_iff_toNat_lt.mp hb
    rw [lowerInto, if_pos hlt, UInt8.ofNat_toNat]
  dotted := rfl
  kelvin := rfl
  other r hr hdot hkelvin := by rwa [lowerInto, if_neg (Nat.not_lt.mpr hr), if_neg hdot, if_neg hkelvin]

/-- `contİnuous` is a tier to the agent, and unknown to the shim. -/
theorem not_agree_dotted :
    UnicodeLower lowerInto ∧ ¬Agree lowerInto 64 (ascii "cont" ++ [0xc4, 0xb0] ++ ascii "nuous") := by
  refine ⟨unicodeLower_lowerInto, fun h => ?_⟩
  have hnul : 0 ∉ ascii "cont" ++ [0xc4, 0xb0] ++ ascii "nuous" := by decide +kernel
  have hagent : parsePCSamplingTier lowerInto (ascii "cont" ++ [0xc4, 0xb0] ++ ascii "nuous") =
      (.continuous, none) := by decide +kernel
  have hshim := (h.accepts .continuous).mp hagent
  rw [pcTierParse_iff hnul, OneTier, if_neg (by decide +kernel)] at hshim
  revert hshim
  decide +kernel

/-- Two names of one tier, in capitals. -/
theorem agree_iff_capitals : (∀ tok ∈ tierTokens (ascii "CONTINUOUS, 1"), agentTier lowerInto tok = some .continuous) ∧
      (Agree lowerInto 64 (ascii "CONTINUOUS, 1") ↔
        ∀ t, (∀ tok ∈ tierTokens (ascii "CONTINUOUS, 1"), agentTier lowerInto tok = some t) →
          ∀ tok ∈ tierTokens (ascii "CONTINUOUS, 1"), ¬Dotted tok) :=
  ⟨by decide +kernel, agree_iff unicodeLower_lowerInto (by decide) 64⟩

end PerfAgent.Shim
