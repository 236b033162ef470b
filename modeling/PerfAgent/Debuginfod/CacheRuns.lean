import PerfAgent.Debuginfod.Cache

/-!
# Runs of the artifact cache

Between two calls the table and the directory say the same (`Matches`).  While calls are in flight
an artifact is `Settled` if the two agree on it, or a `Touch` with the size of its file is still to
come, or its row has gone and its file is about to.  `Careful` names the steps that break this: a
`Touch` that comes too late for its file, and a removal after the row has come back.
-/

namespace PerfAgent.Debuginfod

open List Option AssocMap

/-! ## Calls in flight -/

namespace Op

def Awaits (a : Artifact) (size : Nat) : Op → Prop
  | touch b n _ => b = a ∧ n = size
  | _ => False

def Removes (p : Path) : Op → Prop
  | rename _ _ tmp => tmp = p
  | delete evicted _ => ∃ e ∈ evicted, pathFor e.artifact = some p
  | remove left => ∃ e ∈ left, pathFor e.artifact = some p
  | _ => False

def Plain : Op → Prop
  | write a _ | stat a | touch a _ _ => a.Plain
  | rename a _ tmp => a.Plain ∧ ∃ b : Artifact, b.Plain ∧ pathFor b = some tmp
  | delete evicted left => (∀ e ∈ evicted, e.artifact.Plain) ∧ left.Sublist evicted
  | remove left => ∀ e ∈ left, e.artifact.Plain
  | _ => True

instance Awaits.decidable (a : Artifact) (size : Nat) : ∀ op : Op, Decidable (op.Awaits a size)
  | touch b n _ => inferInstanceAs (Decidable (b = a ∧ n = size))
  | write _ _ | rename _ _ _ | stat _ | walk | total | rows _ | delete _ _ | remove _ => .isFalse id

end Op

theorem removing_removes {left : List Entry} {e : Entry} {p : Path} (he : e ∈ left)
    (hp : pathFor e.artifact = some p) : ∃ op, removing left = some op ∧ op.Removes p := by
  cases left with
  | nil => cases he
  | cons x left => exact ⟨.remove (x :: left), rfl, e, he, hp⟩

theorem deleting_removes {evicted left : List Entry} {e : Entry} {p : Path} (he : e ∈ evicted)
    (hp : pathFor e.artifact = some p) : ∃ op, deleting evicted left = some op ∧ op.Removes p := by
  cases left with
  | nil => exact removing_removes he hp
  | cons x left => exact ⟨.delete evicted (x :: left), rfl, e, he, hp⟩

theorem plain_removing {left : List Entry} (h : ∀ e ∈ left, e.artifact.Plain) {op : Op}
    (hop : removing left = some op) : op.Plain := by
  cases left with
  | nil => cases hop
  | cons x left =>
    cases hop
    exact h

theorem plain_deleting {evicted left : List Entry} (h : ∀ e ∈ evicted, e.artifact.Plain)
    (hleft : left.Sublist evicted) {op : Op} (hop : deleting evicted left = some op) : op.Plain := by
  cases left with
  | nil => exact plain_removing h hop
  | cons x left =>
    cases hop
    exact ⟨h, hleft⟩

namespace Cache

variable {c c' : Cache} {a b : Artifact} {i : Nat} {old op : Op} {next : Option Op} {star : Name}

section

variable (c)

@[simp] theorem goOn_files (i : Nat) (next : Option Op) : (c.goOn i next).files = c.files := rfl
@[simp] theorem goOn_index (i : Nat) (next : Option Op) : (c.goOn i next).index = c.index := rfl
@[simp] theorem goOn_maxBytes (i : Nat) (next : Option Op) : (c.goOn i next).maxBytes = c.maxBytes := rfl

end

theorem mem_goOn (hold : c.ops[i]? = some old) (h : op ∈ c.ops) : op = old ∨ op ∈ (c.goOn i next).ops := by
  obtain ⟨j, hj, rfl⟩ := mem_iff_getElem.mp h
  by_cases hji : j = i
  · subst hji
    rw [getElem?_eq_getElem hj] at hold
    exact .inl (Option.some.inj hold)
  · refine .inr ?_
    cases next with
    | none => exact mem_eraseIdx_iff_getElem.mpr ⟨j, hj, hji, rfl⟩
    | some new =>
      refine mem_iff_getElem.mpr ⟨j, by simpa [goOn] using hj, ?_⟩
      exact getElem_set_ne (Ne.symm hji) _

theorem mem_of_goOn (h : op ∈ (c.goOn i next).ops) : op ∈ c.ops ∨ next = some op := by
  cases next with
  | none => exact .inl (mem_of_mem_eraseIdx h)
  | some new => exact (mem_or_eq_of_mem_set h).imp_right fun heq : op = new => congrArg some heq.symm

theorem next_mem_goOn (hold : c.ops[i]? = some old) (hnext : next = some op) : op ∈ (c.goOn i next).ops := by
  subst hnext
  exact mem_set (List.getElem?_eq_some_iff.mp hold).1 op

/-! ## What holds in every run -/

def fileOf (c : Cache) (a : Artifact) : Option Nat := (pathFor a).bind c.files.find?

def entryAt (c : Cache) (p : Path) : Option Access := (parsePath p).bind c.index.find?

/-- Table and directory agree on the artifact, or a call in flight will see to it. -/
def Settled (c : Cache) (a : Artifact) : Prop :=
  (c.index.find? a).map Access.size = c.fileOf a ∨ (∃ size, c.fileOf a = some size ∧ ∃ op ∈ c.ops, op.Awaits a size) ∨
    (c.index.find? a = none ∧ ∃ p, pathFor a = some p ∧ ∃ op ∈ c.ops, op.Removes p)

structure Ok (c : Cache) : Prop where
  plain : ∀ op ∈ c.ops, op.Plain
  indexed : ∀ a, c.index.find? a ≠ none → a.Plain
  laidOut : ∀ p, c.files.find? p ≠ none → ∃ a : Artifact, a.Plain ∧ pathFor a = some p
  settled : ∀ a : Artifact, a.Plain → c.Settled a

def Permits (c : Cache) (i : Nat) : Op → Prop
  | .rename a size tmp =>
    (c.files.find? tmp = some size ∨ c.files.find? tmp = none) ∧ (pathFor a = some tmp ∨ c.entryAt tmp = none)
  | .touch a size _ => c.fileOf a = some size ∨ ∃ n ∈ c.fileOf a, ∃ op ∈ c.ops.eraseIdx i, op.Awaits a n
  | .remove (e :: _) => c.index.find? e.artifact = none
  | _ => True

/-- A step that keeps clear of the races, or a call for an artifact that has a file of its own. -/
def Careful (c : Cache) : Act → Prop
  | .writeAtomic a _ | .has a => (pathFor a).isSome = true → a.Plain
  | .rename i | .touch i _ | .remove i => ∀ op ∈ c.ops[i]?, c.Permits i op
  | _ => True

instance Permits.decidable (c : Cache) (i : Nat) : ∀ op : Op, Decidable (c.Permits i op)
  | .rename a size tmp =>
    inferInstanceAs (Decidable ((c.files.find? tmp = some size ∨ c.files.find? tmp = none) ∧
      (pathFor a = some tmp ∨ c.entryAt tmp = none)))
  | .touch a size _ =>
    inferInstanceAs (Decidable (c.fileOf a = some size ∨ ∃ n ∈ c.fileOf a, ∃ op ∈ c.ops.eraseIdx i, op.Awaits a n))
  | .remove (e :: _) => inferInstanceAs (Decidable (c.index.find? e.artifact = none))
  | .remove [] | .write _ _ | .stat _ | .walk | .total | .rows _ | .delete _ _ => .isTrue trivial

instance Careful.decidable (c : Cache) : ∀ act : Act, Decidable (c.Careful act)
  | .writeAtomic a _ | .has a => inferInstanceAs (Decidable ((pathFor a).isSome = true → a.Plain))
  | .rename i | .touch i _ | .remove i => inferInstanceAs (Decidable (∀ op ∈ c.ops[i]?, c.Permits i op))
  | .evict | .prewarm | .create _ _ | .stat _ | .visit _ _ | .endWalk _ | .totalBytes _ | .rows _ _ | .delete _ =>
    .isTrue trivial

theorem fileOf_eq {p : Path} (hp : pathFor a = some p) : c.fileOf a = c.files.find? p := by
  rw [fileOf, hp]
  rfl

theorem Settled.of_same (h : c.Settled a) (hfile : c'.fileOf a = c.fileOf a)
    (hindex : c'.index.find? a = c.index.find? a)
    (hawaits : ∀ op ∈ c.ops, ∀ size, op.Awaits a size → ∃ op' ∈ c'.ops, op'.Awaits a size)
    (hremoves : ∀ op ∈ c.ops, ∀ p, pathFor a = some p → op.Removes p → ∃ op' ∈ c'.ops, op'.Removes p) :
    c'.Settled a := by
  unfold Settled
  rw [hfile, hindex]
  rcases h with hsame | ⟨size, hsize, op, hmem, ha⟩ | ⟨hnone, p, hp, op, hmem, hr⟩
  · exact .inl hsame
  · exact .inr (.inl ⟨size, hsize, hawaits op hmem size ha⟩)
  · exact .inr (.inr ⟨hnone, p, hp, hremoves op hmem p hp hr⟩)

theorem Settled.index_eq_none (h : c.Settled a) (hfile : c.fileOf a = none) : c.index.find? a = none := by
  rcases h with hsame | ⟨size, hsize, -⟩ | ⟨hnone, -⟩
  · rw [hfile] at hsame
    exact map_eq_none_iff.mp hsame
  · rw [hfile] at hsize
    cases hsize
  · exact hnone

/-- A call goes on.  An artifact is settled again, or the step leaves it alone and the call still does
for it what it had to do. -/
theorem Ok.advance (h : c.Ok) (hold : c.ops[i]? = some old) (hops : c'.ops = (c.goOn i next).ops)
    (hnext : ∀ op, next = some op → op.Plain) (hindexed : ∀ a, c'.index.find? a ≠ none → a.Plain)
    (hlaid : ∀ p, c'.files.find? p ≠ none → ∃ a : Artifact, a.Plain ∧ pathFor a = some p)
    (hsettled : ∀ a : Artifact, a.Plain → c'.Settled a ∨
      (c'.fileOf a = c.fileOf a ∧ c'.index.find? a = c.index.find? a ∧
        (∀ size, old.Awaits a size → ∃ op, next = some op ∧ op.Awaits a size) ∧
        ∀ p, pathFor a = some p → old.Removes p → ∃ op, next = some op ∧ op.Removes p)) : c'.Ok := by
  have hmem : ∀ {op : Op}, op ∈ c.ops → op = old ∨ op ∈ c'.ops := fun hop => hops ▸ mem_goOn hold hop
  refine ⟨fun op hop => ?_, hindexed, hlaid, fun a ha => ?_⟩
  · rw [hops] at hop
    exact (mem_of_goOn hop).elim (h.plain op) (hnext op)
  · rcases hsettled a ha with hdone | ⟨hfile, hindex, hawaits, hremoves⟩
    · exact hdone
    · refine (h.settled a ha).of_same hfile hindex (fun op hop size ho => ?_) fun op hop p hp ho => ?_
      · rcases hmem hop with rfl | hstill
        · obtain ⟨new, hnew, ha⟩ := hawaits size ho
          exact ⟨new, hops ▸ next_mem_goOn hold hnew, ha⟩
        · exact ⟨op, hstill, ho⟩
      · rcases hmem hop with rfl | hstill
        · obtain ⟨new, hnew, hr⟩ := hremoves p hp ho
          exact ⟨new, hops ▸ next_mem_goOn hold hnew, hr⟩
        · exact ⟨op, hstill, ho⟩

theorem Ok.goOn (h : c.Ok) (hold : c.ops[i]? = some old) (hawaits : ∀ a size, ¬ old.Awaits a size)
    (hremoves : ∀ p, ¬ old.Removes p) (hnext : ∀ op, next = some op → op.Plain) : (c.goOn i next).Ok :=
  h.advance hold rfl hnext h.indexed h.laidOut fun a _ =>
    .inr ⟨rfl, rfl, fun size ho => absurd ho (hawaits a size), fun p _ ho => absurd ho (hremoves p)⟩

theorem Ok.call (h : c.Ok) (hop : op.Plain) : (c.call op).Ok := by
  refine ⟨fun op' hop' => ?_, h.indexed, h.laidOut, fun a ha => ?_⟩
  · rcases mem_append.mp hop' with hmem | hmem
    · exact h.plain op' hmem
    · exact mem_singleton.mp hmem ▸ hop
  · exact (h.settled a ha).of_same rfl rfl (fun op' hmem _ ho => ⟨op', mem_append_left _ hmem, ho⟩)
      fun op' hmem _ _ ho => ⟨op', mem_append_left _ hmem, ho⟩

/-! ## Temporary files -/

theorem slash_notMem_tempName (h : star.all isDigit = true) : slash ∉ tempName star := by
  unfold tempName
  rw [mem_append, mem_append, not_or, not_or]
  refine ⟨⟨by decide, fun hmem => ?_⟩, by decide⟩
  exact absurd (all_eq_true.mp h slash hmem) (by decide)

theorem exists_plain_tempPath {p : Path} (ha : a.Plain) (hp : pathFor a = some p) (hstar : star.all isDigit = true) :
    ∃ b : Artifact, b.Plain ∧ pathFor b = some (tempPath p star) := by
  have hpath : tempPath p star = [buildIDDir, a.buildID.take 2, tempName star] := by
    rw [ha.pathFor_eq] at hp
    cases hp
    rfl
  have hlength : (a.buildID.take 2).length = 2 := by
    have := ha.long
    rw [length_take]
    omega
  have hname : 10 ≤ (tempName star).length := by
    unfold tempName
    rw [List.length_append, List.length_append]
    change 10 ≤ 6 + star.length + 4
    omega
  let b : Artifact := ⟨a.buildID.take 2 ++ tempName star, .executable⟩
  have htake : b.buildID.take 2 = a.buildID.take 2 := take_left' hlength
  have hdrop : b.buildID.drop 2 = tempName star := drop_left' hlength
  have hplain : b.Plain := by
    refine ⟨?_, ?_, htake ▸ ha.pre, fun _ => ⟨?_, ?_⟩⟩
    · change 4 ≤ (a.buildID.take 2 ++ tempName star).length
      rw [List.length_append]
      omega
    · change slash ∉ a.buildID.take 2 ++ tempName star
      rw [mem_append, not_or]
      exact ⟨fun hmem => ha.separator (mem_of_mem_take hmem), slash_notMem_tempName hstar⟩
    · rw [hdrop]
      intro heq
      rw [heq] at hname
      exact absurd hname (by decide)
    · -- it ends in another letter
      rw [hdrop]
      refine eq_false_of_ne_true fun hsuffix => ?_
      have hlast := List.IsSuffix.getLast (isSuffixOf_iff_suffix.mp hsuffix) (by decide)
      have htmp : (tempName star).getLast? = some 0x70 := by
        unfold tempName
        rw [getLast?_append]
        rfl
      rw [getLast?_eq_some_getLast (ne_nil_of_length_pos (Nat.lt_of_lt_of_le (by decide) hname)), ← hlast] at htmp
      exact absurd htmp (by decide)
  refine ⟨b, hplain, ?_⟩
  have hfile : b.fileName = tempName star := by
    unfold Artifact.fileName
    rw [if_neg nofun, hdrop]
  rw [hplain.pathFor_eq, htake, hfile, hpath]

/-! ## Steps -/

theorem fileOf_put {p : Path} (ha : a.Plain) (hp : pathFor b = some p) (hb : b.Plain) (hne : a ≠ b) (files : AssocMap Path Nat)
    (size : Nat) : (pathFor a).bind (files.put p size).find? = (pathFor a).bind files.find? := by
  rw [ha.pathFor_eq]
  refine find?_put_of_ne _ _ fun heq => hne (ha.eq_of_pathFor hb ?_)
  rw [ha.pathFor_eq, hp, heq]

theorem fileOf_del {p : Path} (ha : a.Plain) (hp : pathFor b = some p) (hb : b.Plain) (hne : a ≠ b) (files : AssocMap Path Nat) :
    (pathFor a).bind (files.del p).find? = (pathFor a).bind files.find? := by
  rw [ha.pathFor_eq]
  refine find?_del_of_ne _ fun heq => hne (ha.eq_of_pathFor hb ?_)
  rw [ha.pathFor_eq, hp, heq]

theorem Ok.created {size : Nat} {p : Path} (h : c.Ok) (hold : c.ops[i]? = some (.write a size))
    (hp : pathFor a = some p) (hstar : star.all isDigit = true) (hfree : c.files.find? (tempPath p star) = none) :
    (({ c with files := c.files.put (tempPath p star) size }).goOn i (some (.rename a size (tempPath p star)))).Ok := by
  have ha : a.Plain := h.plain _ (mem_of_getElem? hold)
  obtain ⟨b, hb, hbp⟩ := exists_plain_tempPath ha hp hstar
  refine @Ok.advance c _ i _ (some _) h hold rfl ?_ h.indexed (fun q hq => ?_) fun d hd => ?_
  · rintro op heq
    cases heq
    exact ⟨ha, b, hb, hbp⟩
  · by_cases hqp : q = tempPath p star
    · exact ⟨b, hb, hqp ▸ hbp⟩
    · rw [goOn_files, find?_put_of_ne _ _ hqp] at hq
      exact h.laidOut q hq
  · by_cases hdb : d = b
    · subst hdb
      have hnone := (h.settled d hd).index_eq_none ((fileOf_eq hbp).trans hfree)
      exact .inl (.inr (.inr ⟨hnone, tempPath p star, hbp, _, @next_mem_goOn c i _ _ _ hold rfl, rfl⟩))
    · exact .inr ⟨fileOf_put hd hbp hb hdb _ _, rfl, nofun, nofun⟩

theorem entryAt_eq {p : Path} (ha : a.Plain) (hp : pathFor a = some p) : c.entryAt p = c.index.find? a := by
  rw [entryAt, ha.parsePath hp]
  rfl

theorem Ok.renamed {size : Nat} {tmp : Path} (h : c.Ok) (hold : c.ops[i]? = some (.rename a size tmp))
    (hsize : c.files.find? tmp = some size ∨ c.files.find? tmp = none)
    (hentry : pathFor a = some tmp ∨ c.entryAt tmp = none) : (c.renamed i a size tmp).Ok := by
  obtain ⟨ha, b, hb, hbp⟩ := h.plain _ (mem_of_getElem? hold)
  have hap := ha.pathFor_eq
  -- no other artifact waits for the temporary file to go
  have hother : ∀ {next : Option Op} {d : Artifact}, d.Plain → d ≠ b → ∀ q, pathFor d = some q →
      (Op.rename a size tmp).Removes q → ∃ op, next = some op ∧ op.Removes q := by
    intro next d hd hdb q hq htmp
    have heq : tmp = q := htmp
    exact absurd (hd.eq_of_pathFor hb (hq.trans (heq ▸ hbp.symm))) hdb
  unfold Cache.renamed
  rcases hsize with hfile | hfile
  · rw [hfile, hap]
    change Ok (({ c with files := (c.files.del tmp).put _ size }).goOn i (some (.touch a size false)))
    refine @Ok.advance c _ i _ (some _) h hold rfl ?_ h.indexed (fun q hq => ?_) fun d hd => ?_
    · rintro op heq
      cases heq
      exact ha
    · by_cases hqa : q = [buildIDDir, a.buildID.take 2, a.fileName]
      · exact ⟨a, ha, hqa ▸ hap⟩
      · rw [goOn_files, find?_put_of_ne _ _ hqa] at hq
        obtain ⟨n, hn⟩ := ne_none_iff_exists'.mp hq
        refine h.laidOut q ?_
        rw [(find?_del_eq_some.mp hn).2]
        exact some_ne_none _
    · by_cases hda : d = a
      · subst hda
        refine .inl (.inr (.inl ⟨size, ?_, _, @next_mem_goOn c i _ _ _ hold rfl, rfl, rfl⟩))
        exact (fileOf_eq hap).trans (find?_put_self _ _ _)
      · have hfiles := fileOf_put hd hap ha hda (c.files.del tmp) size
        by_cases hdb : d = b
        · subst hdb
          have hnone : c.index.find? d = none := by
            rcases hentry with heq | hnone
            · exact absurd (hd.eq_of_pathFor ha (hbp.trans heq.symm)) hda
            · exact (entryAt_eq hd hbp).symm.trans hnone
          refine .inl (.inl ((congrArg _ hnone).trans (Eq.symm (hfiles.trans ?_))))
          rw [hbp]
          exact find?_del_self _ _
        · exact .inr ⟨hfiles.trans (fileOf_del hd hbp hb hdb _), rfl, nofun, hother hd hdb⟩
  · rw [hfile]
    -- the write fails; what it would have removed has gone already
    change Ok (c.goOn i none)
    refine h.advance hold rfl nofun h.indexed h.laidOut fun d hd => ?_
    by_cases hdb : d = b
    · subst hdb
      have hnone : c.fileOf d = none := (fileOf_eq hbp).trans hfile
      refine .inl (.inl ?_)
      rw [goOn_index, (h.settled d hd).index_eq_none hnone]
      exact hnone.symm
    · exact .inr ⟨rfl, rfl, nofun, hother hd hdb⟩

theorem Ok.statted (h : c.Ok) (hold : c.ops[i]? = some (.stat a)) : (c.statted i a).Ok := by
  have ha : a.Plain := h.plain _ (mem_of_getElem? hold)
  refine h.goOn hold nofun nofun fun op hop => ?_
  obtain ⟨size, -, rfl⟩ := map_eq_some_iff.mp hop
  exact ha

theorem Ok.touched {size now : Nat} {walks : Bool} (h : c.Ok) (hold : c.ops[i]? = some (.touch a size walks))
    (hfile : c.fileOf a = some size ∨ ∃ n ∈ c.fileOf a, ∃ op ∈ c.ops.eraseIdx i, op.Awaits a n) :
    (c.touched i a size now walks).Ok := by
  have ha : a.Plain := h.plain _ (mem_of_getElem? hold)
  refine h.advance hold rfl ?_ (fun d hd => ?_) h.laidOut fun d hd => ?_
  · intro op hop
    split at hop
    · cases hop
      exact trivial
    · cases hop
  · by_cases hda : d = a
    · exact hda ▸ ha
    · rw [Cache.touched, goOn_index, find?_put_of_ne _ _ hda] at hd
      exact h.indexed d hd
  · by_cases hda : d = a
    · subst hda
      refine .inl ?_
      rcases hfile with hsame | ⟨n, hn, op, hop, hawaits⟩
      · refine .inl ((congrArg _ (find?_put_self _ _ _)).trans ?_)
        exact hsame.symm
      · refine .inr (.inl ⟨n, hn, op, ?_, hawaits⟩)
        obtain ⟨j, hj, hji, rfl⟩ := mem_eraseIdx_iff_getElem.mp hop
        cases walks with
        | false => exact mem_eraseIdx_iff_getElem.mpr ⟨j, hj, hji, rfl⟩
        | true =>
          refine mem_iff_getElem.mpr ⟨j, by simpa [Cache.touched, Cache.goOn] using hj, ?_⟩
          exact getElem_set_ne (Ne.symm hji) _
    · exact .inr ⟨rfl, find?_put_of_ne _ _ hda, fun n ho => absurd ho.1.symm hda, nofun⟩

theorem Ok.visited {p : Path} (h : c.Ok) (hold : c.ops[i]? = some .walk) : (c.visited i p).Ok := by
  unfold Cache.visited
  split
  · next a size hparse hfile =>
      refine h.goOn hold nofun nofun fun op hop => ?_
      cases hop
      obtain ⟨b, hb, hbp⟩ := h.laidOut p (hfile ▸ some_ne_none _)
      exact Option.some.inj (hparse.symm.trans (hb.parsePath hbp)) ▸ hb
  · exact h

theorem mem_table {e : Entry} : e ∈ c.table ↔ c.index.find? e.artifact = some ⟨e.size, e.lastAccess⟩ := by
  constructor
  · intro h
    obtain ⟨⟨a, acc⟩, hmem, rfl⟩ := mem_map.mp h
    exact AList.mem_lookup_iff.mpr hmem
  · intro h
    exact mem_map.mpr ⟨⟨e.artifact, ⟨e.size, e.lastAccess⟩⟩, AList.mem_lookup_iff.mp h, rfl⟩

theorem isPrefix_evictRows (excess freed : Nat) (order : List Entry) : evictRows excess freed order <+: order := by
  induction order generalizing freed with
  | nil => exact nil_prefix
  | cons e es ih =>
    unfold evictRows
    split
    · exact cons_prefix_cons.mpr ⟨rfl, ih _⟩
    · exact nil_prefix

theorem Ok.selected {excess : Nat} {order : List Entry} (h : c.Ok) (hold : c.ops[i]? = some (.rows excess))
    (hperm : order.Perm c.table) : (c.selected i excess order).Ok := by
  refine h.goOn hold nofun nofun fun op hop => ?_
  refine plain_deleting (fun e he => h.indexed _ ?_) (List.Sublist.refl _) hop
  have hmem := hperm.subset ((isPrefix_evictRows excess 0 order).subset he)
  rw [mem_table.mp hmem]
  exact some_ne_none _

theorem Ok.deleted {evicted left : List Entry} {e : Entry} (h : c.Ok)
    (hold : c.ops[i]? = some (.delete evicted (e :: left))) : (c.deleted i evicted e left).Ok := by
  obtain ⟨hplain, hsub⟩ := h.plain _ (mem_of_getElem? hold)
  have he : e ∈ evicted := hsub.subset (mem_cons_self ..)
  refine h.advance hold rfl (fun op hop => plain_deleting hplain ((sublist_cons_self e left).trans hsub) hop)
    (fun d hd => ?_) h.laidOut fun d hd => ?_
  · obtain ⟨acc, hacc⟩ := ne_none_iff_exists'.mp hd
    refine h.indexed d ?_
    rw [(find?_del_eq_some.mp hacc).2]
    exact some_ne_none _
  · by_cases hde : d = e.artifact
    · subst hde
      obtain ⟨op, hop, hr⟩ := @deleting_removes _ left _ _ he hd.pathFor_eq
      exact .inl (.inr (.inr ⟨find?_del_self _ _, _, hd.pathFor_eq, op, @next_mem_goOn c i _ _ _ hold hop, hr⟩))
    · refine .inr ⟨rfl, find?_del_of_ne _ hde, nofun, fun p _ ho => ?_⟩
      obtain ⟨x, hx, hxp⟩ := ho
      exact deleting_removes hx hxp

theorem Ok.removed {left : List Entry} {e : Entry} (h : c.Ok) (hold : c.ops[i]? = some (.remove (e :: left)))
    (hgone : c.index.find? e.artifact = none) : (c.removed i e left).Ok := by
  have hplain : ∀ x ∈ e :: left, x.artifact.Plain := h.plain _ (mem_of_getElem? hold)
  have he := hplain e (mem_cons_self ..)
  unfold Cache.removed
  rw [he.pathFor_eq]
  refine h.advance hold rfl (fun op hop => plain_removing (fun x hx => hplain x (mem_cons_of_mem e hx)) hop)
    h.indexed (fun q hq => ?_) fun d hd => ?_
  · obtain ⟨n, hn⟩ := ne_none_iff_exists'.mp hq
    refine h.laidOut q ?_
    rw [(find?_del_eq_some.mp hn).2]
    exact some_ne_none _
  · by_cases hde : d = e.artifact
    · subst hde
      refine .inl (.inl ((congrArg _ hgone).trans (Eq.symm ?_)))
      exact (fileOf_eq hd.pathFor_eq).trans (find?_del_self _ _)
    · refine .inr ⟨fileOf_del hd he.pathFor_eq he hde _, rfl, nofun, fun p hp ho => ?_⟩
      obtain ⟨x, hx, hxp⟩ := ho
      rcases mem_cons.mp hx with rfl | hx
      · exact absurd (hd.eq_of_pathFor he (hp.trans hxp.symm)) hde
      · exact removing_removes hx hxp

theorem Ok.step (h : c.Ok) {act : Act} (hcareful : c.Careful act) (ha : c.step act = some c') : c'.Ok := by
  cases act with
  | writeAtomic a size | has a =>
    cases ha
    split
    · next hsome => exact h.call (hcareful hsome)
    · exact h
  | evict =>
    cases ha
    split
    · exact h
    · exact h.call trivial
  | prewarm =>
    cases ha
    exact h.call trivial
  | create i star =>
    simp only [Cache.step] at ha
    split at ha
    · next a size hold =>
        obtain ⟨p, hp, ha⟩ := bind_eq_some_iff.mp ha
        split at ha
        · next hguard =>
            cases ha
            exact h.created hold hp hguard.1 hguard.2
        · cases ha
    · cases ha
  | rename i =>
    simp only [Cache.step] at ha
    split at ha
    · next a size tmp hold =>
        cases ha
        have hpermits := hcareful _ hold
        exact h.renamed hold hpermits.1 hpermits.2
    · cases ha
  | stat i =>
    simp only [Cache.step] at ha
    split at ha
    · next a hold =>
        cases ha
        exact h.statted hold
    · cases ha
  | touch i now =>
    simp only [Cache.step] at ha
    split at ha
    · next a size walks hold =>
        cases ha
        exact h.touched hold (hcareful _ hold)
    · cases ha
  | visit i p =>
    simp only [Cache.step] at ha
    split at ha
    · next hold =>
        cases ha
        exact h.visited hold
    · cases ha
  | endWalk i =>
    simp only [Cache.step] at ha
    split at ha
    · next hold =>
        cases ha
        exact h.goOn hold (fun _ _ => id) (fun _ => id) fun _ hop => by cases hop
    · cases ha
  | totalBytes i =>
    simp only [Cache.step] at ha
    split at ha
    · next hold =>
        cases ha
        refine h.goOn hold (fun _ _ => id) (fun _ => id) fun op hop => ?_
        split at hop
        · cases hop
        · cases hop
          exact trivial
    · cases ha
  | rows i order =>
    simp only [Cache.step] at ha
    split at ha
    · next excess hold =>
        split at ha
        · next hguard =>
            cases ha
            exact h.selected hold hguard.1
        · cases ha
    · cases ha
  | delete i =>
    simp only [Cache.step] at ha
    split at ha
    · next evicted e left hold =>
        cases ha
        exact h.deleted hold
    · cases ha
  | remove i =>
    simp only [Cache.step] at ha
    split at ha
    · next e left hold =>
        cases ha
        exact h.removed hold (hcareful _ hold)
    · cases ha

end Cache

end PerfAgent.Debuginfod
