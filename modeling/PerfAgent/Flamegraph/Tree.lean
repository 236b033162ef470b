import PerfAgent.Flamegraph.Fold

/-!
# The tree of a flame graph

`buildTree` and `sortTree` of `internal/flamegraph/render.go`.  The index of a node and its list of
children are one list here, since a child is put into both.  The domain and the shade of a node are left
out: they are set at the end from the name and the module, and the tree does not depend on them.
-/

namespace PerfAgent.Flamegraph

open List

open Pprof (ascii)

/-- A `node` without its children. -/
structure NodeInfo where
  name : Name
  module : Name := []
  collapsed : Bool := false
  value : Int64 := 0
  inexact : Int64 := 0
  depth : Nat := 0
deriving DecidableEq

structure Node where
  info : NodeInfo
  children : List Node

namespace Node

/-- `n.index[frame]`. -/
def index (n : Node) (frame : Name) : Option Node := n.children.find? fun c => c.info.name == frame

/-- The node with a child put in the place of the one of its name, or behind the others. -/
def setChild (n : Node) (c : Node) : Node :=
  { n with
    children :=
      if n.children.any fun x => x.info.name == c.info.name then
        n.children.map fun x => if x.info.name = c.info.name then c else x
      else n.children ++ [c] }

end Node

/-! ## Adding the stacks -/

structure Step where
  frame : Name
  mod : Name
  collapsed : Bool
deriving DecidableEq

def Stack.steps (st : Stack) : List Step :=
  st.frames.zipIdx.map fun p =>
    { frame := p.1, mod := st.modules.getD p.2 [], collapsed := st.collapsed.getD p.2 false }

/-- The child that a step goes to, before the value of the stack is added. -/
def Node.childFor (cur : Node) (s : Step) : Node :=
  match cur.index s.frame with
  | none =>
    { info := { name := s.frame, module := s.mod, collapsed := s.collapsed, depth := cur.info.depth + 1 }
      children := [] }
  | some child =>
    -- two samples that disagree about the module leave none
    if child.info.module ≠ s.mod then { child with info := { child.info with module := [] } } else child

def Node.addValue (n : Node) (value inexact : Int64) : Node :=
  { n with info := { n.info with value := n.info.value + value, inexact := n.info.inexact + inexact } }

/-- The inner loop: the steps of a stack from a node on, and `maxDepth`. -/
def addSteps (value inexact : Int64) : List Step → Node → Nat → Node × Nat
  | [], cur, maxDepth => (cur, maxDepth)
  | s :: steps, cur, maxDepth =>
    let child := (cur.childFor s).addValue value inexact
    let maxDepth := if maxDepth < child.info.depth + 1 then child.info.depth + 1 else maxDepth
    let (child, maxDepth) := addSteps value inexact steps child maxDepth
    (cur.setChild child, maxDepth)

def addStack (t : Node × Nat) (st : Stack) : Node × Nat :=
  if st.value ≤ 0 then t else addSteps st.value st.inexact st.steps (t.1.addValue st.value st.inexact) t.2

mutual

/-- `sortTree`. -/
def Node.sortTree : Node → Node
  | { info, children } =>
    { info := info
      children := (sortForest children).mergeSort fun a b => decide (a.info.name ≤ b.info.name) }

def sortForest : List Node → List Node
  | [] => []
  | c :: cs => c.sortTree :: sortForest cs

end

def root : Node := { info := { name := ascii "all" }, children := [] }

/-- `buildTree`: the tree and its depth. -/
def buildTree (res : Result) : Node × Nat :=
  let (root, maxDepth) := res.allStacks.foldl addStack (root, 1)
  (root.sortTree, maxDepth)

/-! ## Paths -/

namespace Node

def follow : List Name → Node → Option Node
  | [], n => some n
  | f :: p, n => (n.index f).bind (follow p)

inductive At : Node → List Name → Node → Prop where
  | here (n : Node) : At n [] n
  | child {n c m : Node} {p : List Name} (h : c ∈ n.children) (hc : At c p m) : At n (c.info.name :: p) m

def Distinct (n : Node) : Prop := ∀ p m, n.follow p = some m → (m.children.map fun c => c.info.name).Nodup

def DepthOk (n : Node) : Prop := ∀ p m, n.follow p = some m → m.info.depth = n.info.depth + p.length

section Follow

variable {n c m : Node} {f : Name} {p q : List Name}

theorem follow_cons : n.follow (f :: p) = (n.index f).bind (follow p) := rfl

theorem name_of_index (h : n.index f = some c) : c.info.name = f := by
  have := find?_some h
  exact beq_iff_eq.mp this

theorem follow_append : n.follow (p ++ q) = (n.follow p).bind (follow q) := by
  induction p generalizing n with
  | nil => rfl
  | cons f p ih =>
    rw [cons_append, follow_cons, follow_cons]
    cases n.index f with
    | none => rfl
    | some c => exact ih

theorem Distinct.child (h : n.Distinct) (hc : n.index f = some c) : c.Distinct := by
  intro p m hm
  exact h (f :: p) m (by rw [follow_cons, hc]; exact hm)

theorem DepthOk.child (h : n.DepthOk) (hc : n.index f = some c) : c.DepthOk ∧ c.info.depth = n.info.depth + 1 := by
  have hone : c.info.depth = n.info.depth + 1 := h [f] c (by rw [follow_cons, hc]; rfl)
  refine ⟨fun p m hm => ?_, hone⟩
  have hall := h (f :: p) m (by rw [follow_cons, hc]; exact hm)
  rw [length_cons] at hall
  omega

theorem find?_name_eq {x : Node} (cs : List Node) (h : x.info.name = f) :
    (x :: cs).find? (fun x => x.info.name == f) = some x := find?_cons_of_pos (beq_iff_eq.mpr h)

theorem find?_name_ne {x : Node} (cs : List Node) (h : x.info.name ≠ f) :
    (x :: cs).find? (fun x => x.info.name == f) = cs.find? fun x => x.info.name == f :=
  find?_cons_of_neg fun heq => h (beq_iff_eq.mp heq)

theorem index_of_mem (h : (n.children.map fun c => c.info.name).Nodup) (hc : c ∈ n.children) :
    n.index c.info.name = some c := by
  obtain ⟨info, children⟩ := n
  show children.find? (fun x => x.info.name == c.info.name) = some c
  induction children with
  | nil => cases hc
  | cons x cs ih =>
    obtain ⟨hx, hcs⟩ := nodup_cons.mp h
    rcases mem_cons.mp hc with rfl | hc
    · exact find?_name_eq cs rfl
    · have hne : x.info.name ≠ c.info.name := fun heq => hx (mem_map.mpr ⟨c, hc, heq.symm⟩)
      rw [find?_name_ne cs hne]
      exact ih hcs hc

theorem Distinct.follow_of_at (h : n.Distinct) (hm : n.At p m) : n.follow p = some m := by
  induction hm with
  | here n => rfl
  | child hc hm ih =>
    have hindex := index_of_mem (h [] _ rfl) hc
    rw [follow_cons, hindex]
    exact ih (h.child hindex)

end Follow

section SetChild

variable (n c : Node)

@[simp] theorem info_setChild : (n.setChild c).info = n.info := rfl

theorem find?_map_replace (cs : List Node) (f : Name) :
    (cs.map fun x => if x.info.name = c.info.name then c else x).find? (fun x => x.info.name == f) =
      if f = c.info.name then (cs.find? fun x => x.info.name == f).map fun _ => c
      else cs.find? fun x => x.info.name == f := by
  induction cs with
  | nil => split <;> rfl
  | cons x cs ih =>
    rw [map_cons]
    by_cases hx : x.info.name = c.info.name
    · rw [if_pos hx]
      by_cases hf : f = c.info.name
      · rw [if_pos hf, find?_name_eq _ hf.symm, find?_name_eq _ (hx.trans hf.symm)]
        rfl
      · rw [if_neg hf, find?_name_ne _ (Ne.symm hf), find?_name_ne _ (hx ▸ Ne.symm hf), ih, if_neg hf]
    · rw [if_neg hx]
      by_cases hxf : x.info.name = f
      · have hf : f ≠ c.info.name := fun h => hx (hxf.trans h)
        rw [if_neg hf, find?_name_eq _ hxf, find?_name_eq _ hxf]
      · rw [find?_name_ne _ hxf, find?_name_ne _ hxf, ih]

theorem index_setChild (f : Name) : (n.setChild c).index f = if f = c.info.name then some c else n.index f := by
  obtain ⟨info, children⟩ := n
  unfold setChild index
  dsimp only
  split
  · next hany =>
    rw [find?_map_replace]
    split
    · next hf =>
      have hsome : (children.find? fun x => x.info.name == f).isSome = true := by
        rw [find?_isSome]
        exact hf ▸ any_eq_true.mp hany
      obtain ⟨y, hy⟩ := Option.isSome_iff_exists.mp hsome
      rw [hy]
      rfl
    · rfl
  · next hany =>
    rw [find?_append]
    by_cases hf : f = c.info.name
    · have hnone : (children.find? fun x => x.info.name == f) = none := by
        rw [find?_eq_none]
        exact fun x hx h => hany (any_eq_true.mpr ⟨x, hx, hf ▸ h⟩)
      rw [if_pos hf, hnone, Option.none_or]
      exact find?_name_eq _ hf.symm
    · have hnone : ([c].find? fun x => x.info.name == f) = none := find?_name_ne [] (Ne.symm hf)
      rw [if_neg hf, hnone, Option.or_none]

theorem nodup_setChild (h : (n.children.map fun c => c.info.name).Nodup) :
    ((n.setChild c).children.map fun c => c.info.name).Nodup := by
  unfold setChild
  dsimp only
  split
  · have hsame : (n.children.map fun x => if x.info.name = c.info.name then c else x).map (fun c => c.info.name) =
        n.children.map fun c => c.info.name := by
      rw [map_map]
      apply map_congr_left
      intro x _
      dsimp only [Function.comp_apply]
      split
      · next hx => exact hx.symm
      · rfl
    rw [hsame]
    exact h
  · next hany =>
    rw [map_append, map_singleton]
    refine nodup_append.mpr ⟨h, pairwise_singleton _ _, ?_⟩
    rintro f hf f' hf' rfl
    obtain ⟨x, hx, hname⟩ := mem_map.mp hf
    have heq := mem_singleton.mp hf'
    exact hany (any_eq_true.mpr ⟨x, hx, beq_iff_eq.mpr (hname.trans heq)⟩)

end SetChild

end Node

/-! ## What a stack does to the tree -/

def stepAt : List Step → List Name → Option Step
  | _, [] => none
  | [], _ :: _ => none
  | s :: steps, f :: p => if s.frame = f then if p = [] then some s else stepAt steps p else none

def NodeInfo.bump (value inexact : Int64) (s : Step) (depth : Nat) : Option NodeInfo → NodeInfo
  | none =>
    { name := s.frame, module := s.mod, collapsed := s.collapsed, value := 0 + value, inexact := 0 + inexact,
      depth := depth }
  | some x =>
    { x with module := if x.module ≠ s.mod then [] else x.module, value := x.value + value,
             inexact := x.inexact + inexact }

section AddSteps

variable (value inexact : Int64)

theorem name_childFor (cur : Node) (s : Step) : (cur.childFor s).info.name = s.frame := by
  unfold Node.childFor
  cases hindex : cur.index s.frame with
  | none => rfl
  | some child =>
    have hname := Node.name_of_index hindex
    dsimp only
    split <;> exact hname

theorem info_childFor (cur : Node) (s : Step) : ((cur.childFor s).addValue value inexact).info =
      .bump value inexact s (cur.info.depth + 1) ((cur.index s.frame).map Node.info) := by
  unfold Node.childFor
  cases cur.index s.frame with
  | none => rfl
  | some child =>
    dsimp only [Option.map_some, NodeInfo.bump]
    split <;> rfl

theorem follow_childFor (cur : Node) (s : Step) (f : Name) (p : List Name) :
    ((cur.childFor s).addValue value inexact).follow (f :: p) = cur.follow (s.frame :: f :: p) := by
  unfold Node.childFor
  rw [Node.follow_cons (n := cur)]
  cases cur.index s.frame with
  | none => rfl
  | some child =>
    dsimp only
    split <;> rfl

variable {n : Node} {s : Step}

theorem depth_childFor (h : n.DepthOk) : ((n.childFor s).addValue value inexact).info.depth = n.info.depth + 1 := by
  rw [info_childFor]
  cases hindex : n.index s.frame with
  | none => rfl
  | some child => exact (h.child hindex).2

theorem depthOk_childFor (h : n.DepthOk) : ((n.childFor s).addValue value inexact).DepthOk := by
  intro p m hm
  rw [depth_childFor value inexact h]
  cases p with
  | nil =>
    cases hm
    exact depth_childFor value inexact h
  | cons f p =>
    rw [follow_childFor] at hm
    have hall := h _ m hm
    rw [length_cons] at hall
    omega

theorem distinct_childFor (h : n.Distinct) : ((n.childFor s).addValue value inexact).Distinct := by
  intro p m hm
  cases p with
  | cons f p => exact h _ m (follow_childFor value inexact n s f p ▸ hm)
  | nil =>
    cases hm
    show ((n.childFor s).children.map fun c => c.info.name).Nodup
    unfold Node.childFor
    cases hindex : n.index s.frame with
    | none => exact nodup_nil
    | some child =>
      have hchild := h.child hindex [] child rfl
      dsimp only
      split <;> exact hchild

theorem info_addSteps (steps : List Step) (n : Node) (d : Nat) : (addSteps value inexact steps n d).1.info = n.info := by
  cases steps <;> rfl

theorem name_addSteps (steps : List Step) (n : Node) (s : Step) (d : Nat) :
    (addSteps value inexact steps ((n.childFor s).addValue value inexact) d).1.info.name = s.frame := by
  rw [info_addSteps]
  exact name_childFor n s

theorem follow_addSteps (steps : List Step) (d : Nat) (h : n.DepthOk) (p : List Name) :
    ((addSteps value inexact steps n d).1.follow p).map Node.info =
      match stepAt steps p with
      | some s => some (.bump value inexact s (n.info.depth + p.length) ((n.follow p).map Node.info))
      | none => (n.follow p).map Node.info := by
  induction steps generalizing n d p with
  | nil => cases p <;> rfl
  | cons s steps ih =>
    cases p with
    | nil => rfl
    | cons f p =>
      rw [addSteps, stepAt]
      dsimp only
      rw [Node.follow_cons, Node.index_setChild, name_addSteps]
      by_cases hf : f = s.frame
      · rw [if_pos hf, if_pos hf.symm, Option.bind_some]
        cases p with
        | nil =>
          rw [if_pos rfl]
          show some (addSteps value inexact steps _ _).1.info = some _
          rw [info_addSteps, info_childFor, hf, Node.follow_cons]
          cases n.index s.frame <;> rfl
        | cons g p =>
          rw [if_neg (cons_ne_nil g p), ih _ (depthOk_childFor value inexact h), follow_childFor, depth_childFor value inexact h, hf]
          have hdepth : n.info.depth + 1 + (g :: p).length = n.info.depth + (s.frame :: g :: p).length := by
            simp only [length_cons]
            omega
          rw [hdepth]
      · rw [if_neg hf, if_neg (Ne.symm hf)]
        rfl

theorem depthOk_addSteps (steps : List Step) (d : Nat) (h : n.DepthOk) :
    (addSteps value inexact steps n d).1.DepthOk := by
  intro p m hm
  have hinfo := follow_addSteps value inexact steps d h p
  rw [hm, info_addSteps] at *
  cases hfollow : n.follow p with
  | none =>
    rw [hfollow] at hinfo
    split at hinfo
    · rw [Option.map_some, Option.some.injEq] at hinfo
      rw [hinfo]
      rfl
    · cases hinfo
  | some x =>
    have hx := h p x hfollow
    rw [hfollow] at hinfo
    split at hinfo
    · rw [Option.map_some, Option.some.injEq] at hinfo
      rw [hinfo]
      exact hx
    · have heq : m.info = x.info := Option.some.inj hinfo
      rw [heq]
      exact hx

theorem distinct_addSteps (steps : List Step) (d : Nat) (h : n.Distinct) :
    (addSteps value inexact steps n d).1.Distinct := by
  induction steps generalizing n d with
  | nil => exact h
  | cons s steps ih =>
    intro p m hm
    rw [addSteps] at hm
    dsimp only at hm
    cases p with
    | nil =>
      cases hm
      exact Node.nodup_setChild _ _ (h [] n rfl)
    | cons f p =>
      rw [Node.follow_cons, Node.index_setChild, name_addSteps] at hm
      by_cases hf : f = s.frame
      · rw [if_pos hf] at hm
        exact ih _ (distinct_childFor value inexact h) p m hm
      · rw [if_neg hf] at hm
        exact h (f :: p) m hm

theorem maxDepth_addSteps (steps : List Step) (d : Nat) (h : n.DepthOk) (hd : n.info.depth < d) :
    (addSteps value inexact steps n d).2 = max d (n.info.depth + steps.length + 1) := by
  induction steps generalizing n d with
  | nil =>
    show d = _
    rw [length_nil]
    omega
  | cons s steps ih =>
    have hdepth := @depth_childFor value inexact n s h
    rw [addSteps]
    dsimp only
    rw [ih _ (depthOk_childFor value inexact h), hdepth, length_cons]
    · split <;> omega
    · rw [hdepth]
      split <;> omega

end AddSteps

/-! ## What all stacks do -/

def visit (p : List Name) (o : Option NodeInfo) (st : Stack) : Option NodeInfo :=
  match stepAt st.steps p with
  | some s => some (.bump st.value st.inexact s p.length o)
  | none => o

structure Built (done : List Stack) (t : Node × Nat) : Prop where
  depthOk : t.1.DepthOk
  distinct : t.1.Distinct
  root : t.1.info = { root.info with value := sum64 (done.map Stack.value), inexact := sum64 (done.map Stack.inexact) }
  nodes : ∀ f p, (t.1.follow (f :: p)).map Node.info = done.foldl (visit (f :: p)) none
  maxDepth : t.2 = (done.map fun st => st.frames.length).foldl max 0 + 1

theorem length_steps (st : Stack) : st.steps.length = st.frames.length := by
  rw [Stack.steps, length_map, length_zipIdx]

theorem built_nil : Built [] (root, 1) where
  depthOk p m hm := by
    cases p with
    | nil =>
      cases hm
      rfl
    | cons f p => cases hm
  distinct p m hm := by
    cases p with
    | nil =>
      cases hm
      exact nodup_nil
    | cons f p => cases hm
  root := rfl
  nodes _ _ := rfl
  maxDepth := rfl

theorem Built.addStack {done : List Stack} {t : Node × Nat} (h : Built done t) (st : Stack) (hpos : 0 < st.value.toInt) :
    Built (done ++ [st]) (addStack t st) := by
  have hkeep : ¬st.value ≤ 0 := by
    have hzero : (0 : Int64).toInt = 0 := rfl
    rw [Int64.le_iff_toInt_le, hzero]
    omega
  have hroot := h.root
  have hdepth : (t.1.addValue st.value st.inexact).DepthOk := fun p m hm => by
    cases p with
    | nil =>
      cases hm
      rfl
    | cons f p => exact h.depthOk (f :: p) m hm
  have hdistinct : (t.1.addValue st.value st.inexact).Distinct := fun p m hm => by
    cases p with
    | nil =>
      cases hm
      exact h.distinct [] t.1 rfl
    | cons f p => exact h.distinct (f :: p) m hm
  have hzero : t.1.info.depth = 0 := by
    rw [hroot]
    rfl
  rw [Flamegraph.addStack, if_neg hkeep]
  constructor
  · exact depthOk_addSteps st.value st.inexact st.steps t.2 hdepth
  · exact distinct_addSteps st.value st.inexact st.steps t.2 hdistinct
  · rw [info_addSteps, Node.addValue, hroot, map_append, map_append, map_singleton, map_singleton,
      sum64_append, sum64_append]
  · intro f p
    have hsame : (t.1.addValue st.value st.inexact).follow (f :: p) = t.1.follow (f :: p) := rfl
    have hinfo : (t.1.addValue st.value st.inexact).info.depth = 0 := hzero
    rw [follow_addSteps st.value st.inexact st.steps t.2 hdepth, hsame, h.nodes, hinfo, Nat.zero_add, foldl_append]
    rfl
  · have hinfo : (t.1.addValue st.value st.inexact).info.depth = 0 := hzero
    rw [maxDepth_addSteps st.value st.inexact st.steps t.2 hdepth (by rw [hinfo, h.maxDepth]; omega), hinfo, h.maxDepth,
      length_steps, map_append, map_singleton, foldl_append]
    show _ = max _ st.frames.length + 1
    omega

theorem built_foldl {l : List Stack} (hpos : ∀ st ∈ l, 0 < st.value.toInt) : Built l (l.foldl addStack (root, 1)) := by
  induction l using List.reverseRecOn with
  | nil => exact built_nil
  | append_singleton l st ih =>
    rw [foldl_append]
    exact (ih fun st' hst => hpos st' (mem_append_left _ hst)).addStack st (hpos st (mem_append_right _ mem_cons_self))

/-! ## The stacks along a path -/

def along (p : List Name) (l : List Stack) : List Stack := l.filter fun st => p.isPrefixOf st.frames

def Stack.moduleAt (st : Stack) (i : Nat) : Name := st.modules.getD i []

theorem stepAt_zipIdx (f : List Name) (k : Nat) (g : Name × Nat → Step) (hg : ∀ q, (g q).frame = q.1) {p : List Name}
    (hp : p ≠ []) :
    stepAt ((f.zipIdx k).map g) p =
      if p.isPrefixOf f then (p.getLast?).map fun x => g (x, k + (p.length - 1)) else none := by
  induction f generalizing k p with
  | nil =>
    cases p with
    | nil => exact absurd rfl hp
    | cons x p => rfl
  | cons y f ih =>
    cases p with
    | nil => exact absurd rfl hp
    | cons x p =>
      rw [zipIdx_cons, map_cons, stepAt, hg, isPrefixOf_cons_cons]
      by_cases hxy : y = x
      · rw [if_pos hxy, hxy, beq_self_eq_true, Bool.true_and]
        cases p with
        | nil => rfl
        | cons z p =>
          have hindex : k + 1 + ((z :: p).length - 1) = k + ((x :: z :: p).length - 1) := by
            simp only [length_cons]
            omega
          rw [if_neg (cons_ne_nil z p), ih (k + 1) (cons_ne_nil z p), getLast?_cons_cons, hindex]
      · have hne : (x == y) = false := beq_eq_false_iff_ne.mpr (Ne.symm hxy)
        rw [if_neg hxy, hne, Bool.false_and]
        rfl

theorem stepAt_steps (st : Stack) {p : List Name} (hp : p ≠ []) : stepAt st.steps p =
      if p.isPrefixOf st.frames then
        (p.getLast?).map fun x =>
          { frame := x, mod := st.moduleAt (p.length - 1), collapsed := st.collapsed.getD (p.length - 1) false }
      else none := by
  have h := stepAt_zipIdx st.frames 0
    (fun q => { frame := q.1, mod := st.modules.getD q.2 [], collapsed := st.collapsed.getD q.2 false }) (fun _ => rfl) hp
  rw [Nat.zero_add] at h
  exact h

theorem along_append (p : List Name) (l : List Stack) (st : Stack) :
    along p (l ++ [st]) = along p l ++ if p.isPrefixOf st.frames then [st] else [] := by
  rw [along, filter_append, filter_cons, filter_nil]
  rfl

structure Visited (p : List Name) (l : List Stack) (x : NodeInfo) : Prop where
  passed : along p l ≠ []
  name : p.getLast? = some x.name
  value : x.value = sum64 ((along p l).map Stack.value)
  inexact : x.inexact = sum64 ((along p l).map Stack.inexact)
  module : ∀ m, m ≠ [] → (x.module = m ↔ ∀ st ∈ along p l, st.moduleAt (p.length - 1) = m)

variable {st : Stack}

theorem visited_bump_none {p : List Name} {l : List Stack} {f : Name} (hnone : along p l = [])
    (hlast : p.getLast? = some f) (hp : p.isPrefixOf st.frames = true) (collapsed : Bool) :
    Visited p (l ++ [st])
      (.bump st.value st.inexact { frame := f, mod := st.moduleAt (p.length - 1), collapsed := collapsed } p.length
        none) := by
  have halong : along p (l ++ [st]) = [st] := by rw [along_append, hnone, if_pos hp, nil_append]
  constructor
  · rw [halong]
    exact cons_ne_nil st []
  · exact hlast
  · rw [halong]
    rfl
  · rw [halong]
    rfl
  · intro m _
    rw [halong, forall_mem_singleton]
    exact Iff.rfl

theorem Visited.bump {p : List Name} {l : List Stack} {st : Stack} {f : Name} {x : NodeInfo} (h : Visited p l x)
    (hp : p.isPrefixOf st.frames = true) (collapsed : Bool) :
    Visited p (l ++ [st])
      (.bump st.value st.inexact { frame := f, mod := st.moduleAt (p.length - 1), collapsed := collapsed } p.length
        (some x)) := by
  have halong : along p (l ++ [st]) = along p l ++ [st] := by rw [along_append, if_pos hp]
  constructor
  · rw [halong]
    exact append_ne_nil_of_right_ne_nil _ (cons_ne_nil st [])
  · exact h.name
  · rw [halong, map_append, map_singleton, sum64_append, ← h.value]
    rfl
  · rw [halong, map_append, map_singleton, sum64_append, ← h.inexact]
    rfl
  · intro m hm
    rw [halong, forall_mem_append, forall_mem_singleton, ← h.module m hm]
    show (if x.module ≠ st.moduleAt (p.length - 1) then [] else x.module) = m ↔ _
    split
    · next hne =>
      constructor
      · exact fun heq => absurd heq.symm hm
      · rintro ⟨rfl, heq⟩
        exact absurd heq.symm hne
    · next heq =>
      rw [Decidable.not_not] at heq
      exact ⟨fun h => ⟨h, heq ▸ h⟩, And.left⟩

theorem visited_foldl {p : List Name} (hp : p ≠ []) (l : List Stack) :
    match l.foldl (visit p) none with
    | none => along p l = []
    | some x => Visited p l x := by
  obtain ⟨f, hlast⟩ := Option.isSome_iff_exists.mp (getLast?_isSome.mpr hp)
  induction l using List.reverseRecOn with
  | nil => rfl
  | append_singleton l st ih =>
    rw [foldl_append]
    show match visit p (l.foldl (visit p) none) st with
      | none => along p (l ++ [st]) = []
      | some x => Visited p (l ++ [st]) x
    rw [visit, stepAt_steps st hp, hlast]
    cases hpref : p.isPrefixOf st.frames with
    | true =>
      rw [if_pos rfl]
      cases hold : l.foldl (visit p) none with
      | none =>
        rw [hold] at ih
        exact visited_bump_none ih hlast hpref _
      | some x =>
        rw [hold] at ih
        exact ih.bump hpref _
    | false =>
      have halong : along p (l ++ [st]) = along p l := by
        rw [along_append, hpref, if_neg Bool.false_ne_true, append_nil]
      rw [if_neg Bool.false_ne_true]
      dsimp only
      cases hold : l.foldl (visit p) none with
      | none =>
        rw [hold] at ih
        exact halong.trans ih
      | some x =>
        rw [hold] at ih
        obtain ⟨hpassed, hname, hvalue, hinexact, hmodule⟩ := ih
        rw [← halong] at hpassed hvalue hinexact hmodule
        exact ⟨hpassed, hname, hvalue, hinexact, hmodule⟩

/-! ## Sorting -/

theorem sortForest_eq (cs : List Node) : sortForest cs = cs.map Node.sortTree := by
  induction cs with
  | nil => rw [sortForest, map_nil]
  | cons c cs ih => rw [sortForest, map_cons, ih]

namespace Node

variable {n c m : Node} {f : Name} {p : List Name}

theorem children_sortTree (n : Node) : n.sortTree.children =
      (n.children.map sortTree).mergeSort fun a b => decide (a.info.name ≤ b.info.name) := by
  obtain ⟨info, children⟩ := n
  rw [sortTree, sortForest_eq]

@[simp] theorem info_sortTree (n : Node) : n.sortTree.info = n.info := by
  obtain ⟨info, children⟩ := n
  rw [sortTree]

theorem mem_children_sortTree : c ∈ n.sortTree.children ↔ ∃ x ∈ n.children, x.sortTree = c := by
  rw [children_sortTree, (mergeSort_perm _ _).mem_iff, mem_map]

theorem names_sortTree (n : Node) :
    (n.sortTree.children.map fun c => c.info.name).Perm (n.children.map fun c => c.info.name) := by
  rw [children_sortTree]
  refine ((mergeSort_perm _ _).map _).trans (List.Perm.of_eq ?_)
  rw [map_map]
  exact map_congr_left fun x _ => congrArg NodeInfo.name x.info_sortTree

theorem sorted_sortTree (n : Node) : (n.sortTree.children.map fun c => c.info.name).Pairwise (· ≤ ·) := by
  rw [children_sortTree, pairwise_map]
  refine (pairwise_mergeSort ?_ ?_ _).imp fun h => of_decide_eq_true h
  · intro a b c hab hbc
    exact decide_eq_true (List.le_trans (of_decide_eq_true hab) (of_decide_eq_true hbc))
  · intro a b
    rw [Bool.or_eq_true, decide_eq_true_iff, decide_eq_true_iff]
    exact List.le_total _ _

theorem index_eq_some (h : (n.children.map fun c => c.info.name).Nodup) :
    n.index f = some c ↔ c ∈ n.children ∧ c.info.name = f := by
  constructor
  · exact fun hc => ⟨mem_of_find?_eq_some hc, name_of_index hc⟩
  · rintro ⟨hc, rfl⟩
    exact index_of_mem h hc

theorem index_sortTree (h : (n.children.map fun c => c.info.name).Nodup) (f : Name) :
    n.sortTree.index f = (n.index f).map sortTree := by
  have hsorted : (n.sortTree.children.map fun c => c.info.name).Nodup := n.names_sortTree.nodup_iff.mpr h
  apply Option.ext
  intro c
  rw [index_eq_some hsorted, mem_children_sortTree, Option.map_eq_some_iff]
  constructor
  · rintro ⟨⟨x, hx, rfl⟩, hname⟩
    rw [info_sortTree] at hname
    exact ⟨x, (index_eq_some h).mpr ⟨hx, hname⟩, rfl⟩
  · rintro ⟨x, hx, rfl⟩
    obtain ⟨hmem, hname⟩ := (index_eq_some h).mp hx
    exact ⟨⟨x, hmem, rfl⟩, by rw [info_sortTree, hname]⟩

theorem follow_sortTree (h : n.Distinct) (p : List Name) : n.sortTree.follow p = (n.follow p).map sortTree := by
  induction p generalizing n with
  | nil => rfl
  | cons f p ih =>
    rw [follow_cons, follow_cons, index_sortTree (h [] n rfl)]
    cases hc : n.index f with
    | none => rfl
    | some c => exact ih (h.child hc)

theorem Distinct.sortTree (h : n.Distinct) : n.sortTree.Distinct := by
  intro p m hm
  rw [follow_sortTree h, Option.map_eq_some_iff] at hm
  obtain ⟨x, hx, rfl⟩ := hm
  exact x.names_sortTree.nodup_iff.mpr (h p x hx)

theorem at_of_follow (h : n.follow p = some m) : n.At p m := by
  induction p generalizing n with
  | nil =>
    cases h
    exact .here m
  | cons f p ih =>
    rw [follow_cons, Option.bind_eq_some_iff] at h
    obtain ⟨c, hc, hm⟩ := h
    have hstep := At.child (mem_of_find?_eq_some hc) (ih hm)
    rw [name_of_index hc] at hstep
    exact hstep

theorem Distinct.at_iff (h : n.Distinct) : n.At p m ↔ n.follow p = some m := ⟨h.follow_of_at, at_of_follow⟩

theorem At.snoc (h : n.At p m) (hc : c ∈ m.children) : n.At (p ++ [c.info.name]) c := by
  induction h with
  | here n => exact .child hc (.here c)
  | child hmem _ ih => exact .child hmem (ih hc)

end Node

/-! ## Sums over the stacks -/

section Sums

variable (w : Stack → Int) {l : List Stack}

theorem sum_filter_le (h : ∀ st ∈ l, 0 ≤ w st) (q : Stack → Bool) : ((l.filter q).map w).sum ≤ (l.map w).sum := by
  induction l with
  | nil => exact Int.le_refl _
  | cons st l ih =>
    obtain ⟨hst, hl⟩ := forall_mem_cons.mp h
    have ih := ih hl
    rw [filter_cons, map_cons, sum_cons]
    split
    · rw [map_cons, sum_cons]
      omega
    · omega

theorem sum_map_if {names : List Name} (hnodup : names.Nodup) {f : Name} (hf : f ∈ names) (v : Int) (r : Name → Int) :
    (names.map fun g => if f = g then v + r g else r g).sum = v + (names.map r).sum := by
  induction names with
  | nil => cases hf
  | cons g names ih =>
    obtain ⟨hg, hnodup⟩ := nodup_cons.mp hnodup
    rw [map_cons, sum_cons, map_cons, sum_cons]
    rcases mem_cons.mp hf with rfl | hf
    · have hrest : (names.map fun g => if f = g then v + r g else r g) = names.map r :=
        map_congr_left fun g hmem => if_neg fun heq : f = g => hg (heq ▸ hmem)
      rw [if_pos rfl, hrest, Int.add_assoc]
    · have hne : f ≠ g := fun heq => hg (heq ▸ hf)
      rw [if_neg hne, ih hnodup hf]
      omega

theorem sum_split (next : Stack → Option Name) {names : List Name} (hnodup : names.Nodup)
    (h : ∀ st ∈ l, ∀ f, next st = some f → f ∈ names) :
    (l.map w).sum = ((l.filter fun st => next st == none).map w).sum +
        (names.map fun f => ((l.filter fun st => next st == some f).map w).sum).sum := by
  induction l with
  | nil =>
    have hzero : (names.map fun _ => (0 : Int)).sum = 0 := by simp
    exact (Int.zero_add _).symm.trans (congrArg (0 + ·) hzero.symm)
  | cons st l ih =>
    obtain ⟨hst, hl⟩ := forall_mem_cons.mp h
    have ih := ih hl
    rw [map_cons, sum_cons]
    cases hnext : next st with
    | none =>
      have hsome : ∀ f, ((st :: l).filter fun st => next st == some f) = l.filter fun st => next st == some f :=
        fun f => filter_cons_of_neg (by rw [hnext]; exact Bool.false_ne_true)
      have hnone : ((st :: l).filter fun st => next st == none) = st :: l.filter fun st => next st == none :=
        filter_cons_of_pos (by rw [hnext]; rfl)
      simp only [hsome, hnone, map_cons, sum_cons]
      omega
    | some f =>
      have hnone : ((st :: l).filter fun st => next st == none) = l.filter fun st => next st == none :=
        filter_cons_of_neg (by rw [hnext]; exact Bool.false_ne_true)
      have hsome : ∀ g, (((st :: l).filter fun st => next st == some g).map w).sum =
          if f = g then w st + ((l.filter fun st => next st == some g).map w).sum
          else ((l.filter fun st => next st == some g).map w).sum := by
        intro g
        rw [filter_cons, hnext]
        by_cases hfg : f = g
        · rw [if_pos (beq_iff_eq.mpr (congrArg some hfg)), if_pos hfg, map_cons, sum_cons]
        · have hne : ¬(some f == some g) = true := fun heq => hfg (Option.some.inj (beq_iff_eq.mp heq))
          rw [if_neg hne, if_neg hfg]
      simp only [hnone, hsome]
      rw [sum_map_if hnodup (hst f hnext)]
      omega

end Sums

/-! ## The prefix tree -/

def weight (f : Stack → Int64) (l : List Stack) : Int := (l.map fun st => (f st).toInt).sum

def longest (l : List Stack) : Nat := (l.map fun st => st.frames.length).foldl max 0

/-- The tree of the stacks `l` is their prefix tree. -/
structure IsPrefixTree (res : Result) (t : Node × Nat) : Prop where
  /-- The paths of the tree are those that some stack goes along. -/
  paths : ∀ p, (∃ m, t.1.At p m) ↔ p = [] ∨ along p res.allStacks ≠ []
  value : ∀ p m, t.1.At p m → m.info.value.toInt = weight Stack.value (along p res.allStacks)
  inexact : ∀ p m, t.1.At p m → m.info.inexact.toInt = weight Stack.inexact (along p res.allStacks)
  total : t.1.info.value = res.total
  /-- What a node has beyond its children is the value of the stacks that end there. -/
  self : ∀ p m, t.1.At p m → m.info.value.toInt - (m.children.map fun c => c.info.value.toInt).sum =
    weight Stack.value (res.allStacks.filter fun st => st.frames == p)
  distinct : ∀ p m, t.1.At p m → (m.children.map fun c => c.info.name).Nodup
  sorted : ∀ p m, t.1.At p m → (m.children.map fun c => c.info.name).Pairwise (· ≤ ·)
  depth : t.2 = longest res.allStacks + 1
  module : ∀ p m, t.1.At p m → p ≠ [] → ∀ mod, mod ≠ [] →
    (m.info.module = mod ↔ ∀ st ∈ along p res.allStacks, st.moduleAt (p.length - 1) = mod)

section Along

variable {p : List Name} {l : List Stack}

theorem along_nil (l : List Stack) : along [] l = l := filter_eq_self.mpr fun _ _ => rfl

theorem isPrefixOf_snoc (p fr : List Name) (f : Name) :
    (p ++ [f]).isPrefixOf fr = (p.isPrefixOf fr && fr[p.length]? == some f) := by
  induction p generalizing fr with
  | nil =>
    cases fr with
    | nil => rfl
    | cons x fr =>
      show (f == x && true) = (true && some x == some f)
      rw [Bool.and_true, Bool.true_and, Bool.eq_iff_iff, beq_iff_eq, beq_iff_eq, Option.some.injEq]
      exact eq_comm
  | cons y p ih =>
    cases fr with
    | nil => rfl
    | cons x fr =>
      rw [cons_append, isPrefixOf_cons_cons, isPrefixOf_cons_cons, ih, length_cons, getElem?_cons_succ, Bool.and_assoc]

theorem beq_eq_isPrefixOf (p fr : List Name) : (fr == p) = (p.isPrefixOf fr && fr[p.length]? == none) := by
  induction p generalizing fr with
  | nil => cases fr <;> rfl
  | cons y p ih =>
    cases fr with
    | nil => rfl
    | cons x fr =>
      rw [cons_beq_cons, isPrefixOf_cons_cons, length_cons, getElem?_cons_succ, ih, Bool.and_assoc, Bool.beq_comm]

theorem along_snoc (p : List Name) (f : Name) (l : List Stack) :
    along (p ++ [f]) l = (along p l).filter fun st => st.frames[p.length]? == some f := by
  unfold along
  rw [filter_filter]
  exact filter_congr fun st _ => by rw [isPrefixOf_snoc, Bool.and_comm]

theorem ending_eq (p : List Name) (l : List Stack) :
    (l.filter fun st => st.frames == p) = (along p l).filter fun st => st.frames[p.length]? == none := by
  unfold along
  rw [filter_filter]
  exact filter_congr fun st _ => by rw [beq_eq_isPrefixOf, Bool.and_comm]

end Along

section BuildTree

variable {res : Result} {l : List Stack} {t : Node × Nat} {p : List Name} {x m : Node}

theorem Built.visited (h : Built l t) (hx : t.1.follow p = some x) (hp : p ≠ []) : Visited p l x.info := by
  cases p with
  | nil => exact absurd rfl hp
  | cons f p =>
    have hnode := h.nodes f p
    have hvisited := visited_foldl hp l
    rw [hx, Option.map_some] at hnode
    rw [← hnode] at hvisited
    exact hvisited

theorem Built.value (h : Built l t) (hx : t.1.follow p = some x) :
    x.info.value = sum64 ((along p l).map Stack.value) ∧ x.info.inexact = sum64 ((along p l).map Stack.inexact) := by
  by_cases hp : p = []
  · rw [hp] at hx ⊢
    cases hx
    rw [along_nil, h.root]
    exact ⟨rfl, rfl⟩
  · have hvisited := h.visited hx hp
    exact ⟨hvisited.value, hvisited.inexact⟩

theorem Built.exists_follow (h : Built l t) : (∃ x, t.1.follow p = some x) ↔ p = [] ∨ along p l ≠ [] := by
  constructor
  · rintro ⟨x, hx⟩
    by_cases hp : p = []
    · exact .inl hp
    · exact .inr (h.visited hx hp).passed
  · intro hp
    cases p with
    | nil => exact ⟨t.1, rfl⟩
    | cons f p =>
      have hpassed := hp.resolve_left (cons_ne_nil f p)
      have hnode := h.nodes f p
      have hvisited := visited_foldl (cons_ne_nil f p) l
      cases hfold : l.foldl (visit (f :: p)) none with
      | none =>
        rw [hfold] at hvisited
        exact absurd hvisited hpassed
      | some info =>
        rw [hfold] at hnode
        obtain ⟨x, hx, -⟩ := Option.map_eq_some_iff.mp hnode
        exact ⟨x, hx⟩

theorem Built.at_sortTree (h : Built l t) : t.1.sortTree.At p m ↔ ∃ x, t.1.follow p = some x ∧ x.sortTree = m := by
  rw [h.distinct.sortTree.at_iff, Node.follow_sortTree h.distinct, Option.map_eq_some_iff]

theorem weight_eq (f : Stack → Int64) (l : List Stack) : weight f l = ((l.map f).map Int64.toInt).sum := by
  rw [weight, map_map]
  rfl

theorem toInt_sum_along (f : Stack → Int64) (hf : ∀ st ∈ l, 0 ≤ (f st).toInt) (hfit : weight f l < 2 ^ 63)
    (p : List Name) : (sum64 ((along p l).map f)).toInt = weight f (along p l) := by
  have hle : weight f (along p l) ≤ weight f l := sum_filter_le (fun st => (f st).toInt) hf _
  rw [weight_eq f (along p l)] at hle ⊢
  refine toInt_sum64 ?_ (by omega)
  intro v hv
  obtain ⟨st, hst, rfl⟩ := mem_map.mp hv
  exact hf st (mem_of_mem_filter hst)

theorem weight_cons (f : Stack → Int64) (st : Stack) (l : List Stack) :
    weight f (st :: l) = (f st).toInt + weight f l := by
  rw [weight, map_cons, sum_cons, ← weight]

theorem weight_le (h : ∀ st ∈ l, st.Measured) : weight Stack.inexact l ≤ weight Stack.value l := by
  induction l with
  | nil =>
    rw [weight, weight, map_nil, map_nil]
  | cons st l ih =>
    obtain ⟨hst, hl⟩ := forall_mem_cons.mp h
    have hle := hst.inexact_le
    have ih := ih hl
    rw [weight_cons, weight_cons]
    omega

theorem buildTree_eq (res : Result) :
    buildTree res = ((res.allStacks.foldl addStack (root, 1)).1.sortTree, (res.allStacks.foldl addStack (root, 1)).2) :=
  rfl

section Nodes

variable (h : Folded res)

include h

theorem Folded.built : Built res.allStacks (res.allStacks.foldl addStack (root, 1)) :=
  built_foldl fun st hst => (h.measured st hst).positive

theorem at_buildTree : (buildTree res).1.At p m ↔
      ∃ x, (res.allStacks.foldl addStack (root, 1)).1.follow p = some x ∧ x.sortTree = m := by
  rw [buildTree_eq]
  exact h.built.at_sortTree

theorem distinct_buildTree : (buildTree res).1.Distinct := by
  rw [buildTree_eq]
  exact h.built.distinct.sortTree

theorem nodup_children (hm : (buildTree res).1.At p m) : (m.children.map fun c => c.info.name).Nodup := by
  have hdistinct := distinct_buildTree h
  exact hdistinct p m (hdistinct.follow_of_at hm)

theorem paths_buildTree (p : List Name) : (∃ m, (buildTree res).1.At p m) ↔ p = [] ∨ along p res.allStacks ≠ [] := by
  rw [← h.built.exists_follow]
  constructor
  · rintro ⟨m, hm⟩
    obtain ⟨x, hx, -⟩ := (at_buildTree h).mp hm
    exact ⟨x, hx⟩
  · rintro ⟨x, hx⟩
    exact ⟨x.sortTree, (at_buildTree h).mpr ⟨x, hx, rfl⟩⟩

theorem value_at (hm : (buildTree res).1.At p m) : m.info.value.toInt = weight Stack.value (along p res.allStacks) := by
  obtain ⟨x, hx, rfl⟩ := (at_buildTree h).mp hm
  rw [Node.info_sortTree, (h.built.value hx).1]
  exact toInt_sum_along Stack.value (fun st hst => Int.le_of_lt (h.measured st hst).positive) h.fits p

theorem inexact_at (hm : (buildTree res).1.At p m) :
    m.info.inexact.toInt = weight Stack.inexact (along p res.allStacks) := by
  obtain ⟨x, hx, rfl⟩ := (at_buildTree h).mp hm
  have hfit : weight Stack.inexact res.allStacks < 2 ^ 63 := Int.lt_of_le_of_lt (weight_le h.measured) h.fits
  rw [Node.info_sortTree, (h.built.value hx).2]
  exact toInt_sum_along Stack.inexact (fun st hst => (h.measured st hst).inexact_nonneg) hfit p

theorem next_mem_children (hm : (buildTree res).1.At p m) (hst : st ∈ along p res.allStacks) {f : Name}
    (hf : st.frames[p.length]? = some f) : f ∈ m.children.map fun c => c.info.name := by
  have hdistinct := distinct_buildTree h
  have hpassed : along (p ++ [f]) res.allStacks ≠ [] := by
    rw [along_snoc]
    exact ne_nil_of_mem (mem_filter.mpr ⟨hst, beq_iff_eq.mpr hf⟩)
  obtain ⟨c, hc⟩ := (paths_buildTree h (p ++ [f])).mpr (.inr hpassed)
  have hfollow := hdistinct.follow_of_at hc
  rw [Node.follow_append, hdistinct.follow_of_at hm, Option.bind_some, Node.follow_cons, Option.bind_eq_some_iff]
    at hfollow
  obtain ⟨c, hc, -⟩ := hfollow
  exact mem_map.mpr ⟨c, mem_of_find?_eq_some hc, Node.name_of_index hc⟩

theorem self_at (hm : (buildTree res).1.At p m) :
    m.info.value.toInt - (m.children.map fun c => c.info.value.toInt).sum =
      weight Stack.value (res.allStacks.filter fun st => st.frames == p) := by
  have hchildren : (m.children.map fun c => c.info.value.toInt).sum =
      ((m.children.map fun c => c.info.name).map fun f =>
        weight Stack.value ((along p res.allStacks).filter fun st => st.frames[p.length]? == some f)).sum := by
    rw [map_map]
    refine congrArg List.sum (map_congr_left fun c hc => ?_)
    rw [value_at h (hm.snoc hc), along_snoc]
    rfl
  have hsplit := sum_split (fun st => st.value.toInt) (fun st => st.frames[p.length]?) (nodup_children h hm)
    fun st hst f hf => next_mem_children h hm hst hf
  have hself := value_at h hm
  unfold weight at hself hchildren ⊢
  rw [hself, hsplit, hchildren, ending_eq, Int.add_sub_cancel]

end Nodes

/-- The tree that is built of a folded result is the prefix tree of its stacks. -/
theorem isPrefixTree_buildTree (h : Folded res) : IsPrefixTree res (buildTree res) := by
  constructor
  · exact paths_buildTree h
  · exact fun p m hm => value_at h hm
  · exact fun p m hm => inexact_at h hm
  · apply Int64.toInt_inj.mp
    rw [value_at h (.here _), along_nil, h.total, weight]
  · exact fun p m hm => self_at h hm
  · exact fun p m hm => nodup_children h hm
  · intro p m hm
    obtain ⟨x, hx, rfl⟩ := (at_buildTree h).mp hm
    exact x.sorted_sortTree
  · rw [buildTree_eq]
    exact h.built.maxDepth
  · intro p m hm hp mod hmod
    obtain ⟨x, hx, rfl⟩ := (at_buildTree h).mp hm
    rw [Node.info_sortTree]
    exact (h.built.visited hx hp).module mod hmod

end BuildTree

/-- Two stacks that share their first frame and disagree about its module. -/
def sharedFrame : Result where
  allStacks :=
    [{ frames := [[97], [98]], modules := [[1], [2]], collapsed := [], value := 3, inexact := 1 },
      { frames := [[97], [99]], modules := [[3]], collapsed := [], value := 2, inexact := 0 }]
  total := 5
  inexactTotal := 1

theorem isPrefixTree_sharedFrame : Folded sharedFrame ∧ IsPrefixTree sharedFrame (buildTree sharedFrame) := by
  have hfolded : Folded sharedFrame := by
    refine ⟨?_, by decide, by decide⟩
    intro st hst
    rcases mem_cons.mp hst with rfl | hst
    · exact ⟨by decide, by decide, by decide⟩
    · cases mem_singleton.mp hst
      exact ⟨by decide, by decide, by decide⟩
  exact ⟨hfolded, isPrefixTree_buildTree hfolded⟩

end PerfAgent.Flamegraph
