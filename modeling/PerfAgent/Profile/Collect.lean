import PerfAgent.Perfdata.Writer
import PerfAgent.Pprof.Builder

/-!
# Collecting a frame-pointer profile

The entry loops of `Collect` in `profile/profiler.go` and `offcpu/profiler.go`.  They do the same for
each entry of the map, but for the type of the samples and the perf.data records that only the CPU
profiler writes.  What a stack map and the symbolizers answer may be different at every turn.
-/

namespace PerfAgent.Profile

open List

open Pprof (SymFrame ProfileSample ProfileBuilder Options SampleType toProfFrames toProfFramesKernel)
open Perfdata (SampleRecord)

/-! ## The layout of a stack -/

def maxFrames : Nat := 127

def kernelAddrThreshold : UInt64 := 0xffff800000000000

/-- `bpfstack.ExtractIPs`. -/
def extractIPs (stack : List UInt8) : List UInt64 :=
  let slots := min (stack.length / 8) maxFrames
  ((List.range slots).map fun j => UInt64.ofNat (leAt stack (8 * j) 8)).takeWhile (· ≠ 0)

/-- `bpfstack.SplitUserKernelIPs`. -/
def splitUserKernelIPs (ips : List UInt64) : List UInt64 × List UInt64 :=
  (ips.filter fun ip => !decide (kernelAddrThreshold ≤ ip), ips.filter fun ip => decide (kernelAddrThreshold ≤ ip))

/-! ## The entry loop -/

/-- An entry of the map that `Collect` has drained. -/
structure Entry where
  pid : UInt32
  kernStack : Int64
  userStack : Int64
  value : UInt64
deriving DecidableEq

/-- What the calls of one turn answer.  A lookup that fails is `none`, and a missing key is an empty
stack; the frames of a symbolizer are used whether it fails or not. -/
structure Answers where
  lookupKern : UInt32 → Option (List UInt8)
  lookupUser : UInt32 → Option (List UInt8)
  symbolizeProcess : UInt32 → List UInt64 → List SymFrame
  symbolizeKernel : List UInt64 → List SymFrame

inductive Kind where
  | cpu (perfData : Bool)
  | offCpu
deriving DecidableEq

def Kind.sampleType : Kind → SampleType
  | cpu _ => .cpu
  | offCpu => .offCpu

def Kind.perfData : Kind → Bool
  | cpu perfData => perfData
  | offCpu => false

structure Collected where
  /-- The processes whose mappings have been read again. -/
  refreshed : List UInt32 := []
  /-- The one builder, from the first sample on. -/
  builder : Option ProfileBuilder := none
  /-- The samples that were added, each with the turn it comes from.  Nothing depends on them. -/
  emitted : List (Nat × ProfileSample) := []
  perfData : List SampleRecord := []

/-- `uint32(id)`. -/
def stackID (id : Int64) : UInt32 := id.toUInt64.toUInt32

def kernelIPs (a : Answers) (e : Entry) : List UInt64 :=
  if 0 ≤ e.kernStack then
    match a.lookupKern (stackID e.kernStack) with
    | some kernBytes => extractIPs kernBytes
    | none => []
  else []

/-- The frames that `sb` has at the end of a turn. -/
def stackFrames (a : Answers) (pid : UInt32) (ips kernelIPs : List UInt64) : List Pprof.Frame :=
  if 0 < ips.length ∨ 0 < kernelIPs.length then
    let userFrames := if 0 < ips.length then a.symbolizeProcess pid ips else []
    let kernelFrames := if 0 < kernelIPs.length then a.symbolizeKernel kernelIPs else []
    toProfFramesKernel kernelFrames ++ toProfFrames userFrames
  else []

def addEntry (kind : Kind) (opt : Options) (a : Answers) (i : Nat) (e : Entry) (stack : List UInt8)
    (s : Collected) : Collected :=
  let kernelIPs := kernelIPs a e
  let (ips, strayKernelIPs) := splitUserKernelIPs (extractIPs stack)
  let kernelIPs := if 0 < strayKernelIPs.length then strayKernelIPs ++ kernelIPs else kernelIPs
  let sample : ProfileSample :=
    { pid := e.pid, sampleType := kind.sampleType, aggregated := true, stack := stackFrames a e.pid ips kernelIPs,
      value := e.value }
  { s with
    builder := some ((s.builder.getD {}).addSample opt sample).1
    emitted := s.emitted ++ [(i, sample)]
    perfData :=
      match ips with
      | [] => s.perfData
      | ip :: _ =>
        if kind.perfData then
          s.perfData ++
            [{ ip := ip, pid := e.pid, tid := e.pid, time := 0, cpu := 0, period := e.value, userIPs := ips,
               kernelIPs := kernelIPs }]
        else s.perfData }

def turn (kind : Kind) (opt : Options) (a : Answers) (i : Nat) (e : Entry) (s : Collected) : Collected :=
  let s := if e.pid ∈ s.refreshed then s else { s with refreshed := s.refreshed ++ [e.pid] }
  match a.lookupUser (stackID e.userStack) with
  | none => s
  | some stack => if stack.length = 0 then s else addEntry kind opt a i e stack s

def collectLoop (kind : Kind) (opt : Options) (answers : Nat → Answers) : Nat → List Entry → Collected → Collected
  | _, [], s => s
  | i, e :: es, s => collectLoop kind opt answers (i + 1) es (turn kind opt (answers i) i e s)

def collect (kind : Kind) (opt : Options) (answers : Nat → Answers) (es : List Entry) : Collected :=
  collectLoop kind opt answers 0 es {}

/-! ## What a profile says -/

def Collected.samples (s : Collected) : List Pprof.Sample :=
  match s.builder with
  | some p => p.sample
  | none => []

def Kind.scaled (kind : Kind) (opt : Options) (v : UInt64) : Int64 :=
  match kind with
  | cpu _ => v.toInt64 * opt.period
  | offCpu => v.toInt64

def kernRead (a : Answers) (e : Entry) : Bool :=
  decide (0 ≤ e.kernStack) && (a.lookupKern (stackID e.kernStack)).any fun stack => !stack.isEmpty

def userRead (a : Answers) (e : Entry) : Bool :=
  (a.lookupUser (stackID e.userStack)).any fun stack => !stack.isEmpty

/-- The entries that a stack could be read for, each with its turn. -/
def readable (answers : Nat → Answers) (es : List Entry) : List (Entry × Nat) :=
  es.zipIdx.filter fun p => kernRead (answers p.2) p.1 || userRead (answers p.2) p.1

def symbolized (symbolize : List UInt64 → List SymFrame) (ips : List UInt64) : List SymFrame :=
  if ips = [] then [] else symbolize ips

/-- The addresses of an entry in user space, and those in the kernel: the ones that have leaked into the
user stack come before the kernel stack. -/
def addresses (a : Answers) (e : Entry) : List UInt64 × List UInt64 :=
  let split := splitUserKernelIPs (extractIPs ((a.lookupUser (stackID e.userStack)).getD []))
  (split.1, split.2 ++ kernelIPs a e)

/-- The sample that an entry is to contribute: the kernel frames and then the user frames. -/
def profileSample (kind : Kind) (a : Answers) (e : Entry) : ProfileSample where
  pid := e.pid
  sampleType := kind.sampleType
  aggregated := true
  stack :=
    toProfFramesKernel (symbolized a.symbolizeKernel (addresses a e).2) ++
      toProfFrames (symbolized (a.symbolizeProcess e.pid) (addresses a e).1)
  value := e.value

structure Conserves (kind : Kind) (opt : Options) (answers : Nat → Answers) (es : List Entry) : Prop where
  /-- The profile has one sample for each that was added, with as many locations as it has frames. -/
  written : (collect kind opt answers es).samples.map (fun x => (x.location.length, x.value)) =
    (collect kind opt answers es).emitted.map fun q => (q.2.stack.length, [kind.scaled opt q.2.value])
  sum : ((collect kind opt answers es).emitted.map fun q => q.2.value.toNat).sum =
    ((readable answers es).map fun p => p.1.value.toNat).sum
  once : ∀ p ∈ readable answers es, ((collect kind opt answers es).emitted.filter fun q => q.1 == p.2) =
    [(p.2, profileSample kind (answers p.2) p.1)]

/-- No entry has a kernel stack that could be read without its user stack. -/
def NoKernelOnly (answers : Nat → Answers) (es : List Entry) : Prop :=
  ∀ p ∈ es.zipIdx, kernRead (answers p.2) p.1 = true → userRead (answers p.2) p.1 = true

/-! ## One turn -/

section Turn

variable (kind : Kind) (opt : Options) (a : Answers) (i : Nat) (e : Entry) (s : Collected)

theorem stackFrames_eq (pid : UInt32) (ips kernelIPs : List UInt64) : stackFrames a pid ips kernelIPs =
      toProfFramesKernel (symbolized a.symbolizeKernel kernelIPs) ++
        toProfFrames (symbolized (a.symbolizeProcess pid) ips) := by
  unfold stackFrames symbolized
  cases ips <;> cases kernelIPs <;> rfl

theorem append_of_pos (stray ips : List UInt64) : (if 0 < stray.length then stray ++ ips else ips) = stray ++ ips := by
  cases stray <;> rfl

theorem emitted_turn : (turn kind opt a i e s).emitted =
      s.emitted ++ if userRead a e then [(i, profileSample kind a e)] else [] := by
  unfold turn userRead
  cases hlookup : a.lookupUser (stackID e.userStack) with
  | none =>
    dsimp only
    rw [Option.any_none, if_neg Bool.false_ne_true, append_nil]
    split <;> rfl
  | some stack =>
    cases stack with
    | nil =>
      dsimp only
      rw [length_nil, if_pos rfl]
      refine Eq.trans ?_ (append_nil _).symm
      split <;> rfl
    | cons b stack =>
      have hsample : (profileSample kind a e).stack =
          stackFrames a e.pid (splitUserKernelIPs (extractIPs (b :: stack))).1
            ((splitUserKernelIPs (extractIPs (b :: stack))).2 ++ kernelIPs a e) := by
        rw [stackFrames_eq, profileSample, addresses, hlookup]
        rfl
      have hsame : profileSample kind a e =
          { pid := e.pid, sampleType := kind.sampleType, aggregated := true,
            stack := stackFrames a e.pid (splitUserKernelIPs (extractIPs (b :: stack))).1
              ((splitUserKernelIPs (extractIPs (b :: stack))).2 ++ kernelIPs a e),
            value := e.value } := by
        rw [← hsample]
        rfl
      dsimp only
      rw [length_cons, if_neg (Nat.succ_ne_zero _), addEntry]
      dsimp only
      rw [append_of_pos, ← hsame]
      refine congrArg (· ++ [(i, profileSample kind a e)]) ?_
      split <;> rfl

def Written : Prop :=
  s.samples.map (fun x => (x.location.length, x.value)) =
    s.emitted.map fun q => (q.2.stack.length, [kind.scaled opt q.2.value])

theorem length_addStack (resolver : Option Pprof.Resolver) (pid : UInt32) (stack : List Pprof.Frame)
    (t : Pprof.Interned) : (Pprof.addStack resolver pid t stack).2.length = stack.length := by
  induction stack generalizing t with
  | nil => rfl
  | cons f stack ih => exact congrArg Nat.succ (ih _)

theorem value_addSample (p : ProfileBuilder) {x : ProfileSample} (htype : x.sampleType = kind.sampleType)
    (hagg : x.aggregated = true) :
    (p.addSample opt x).1.sample.map (fun y => (y.location.length, y.value)) =
      p.sample.map (fun y => (y.location.length, y.value)) ++ [(x.stack.length, [kind.scaled opt x.value])] := by
  have hlen := length_addStack opt.resolver x.pid x.stack p.interned
  rw [ProfileBuilder.addSample, if_pos hagg, ProfileBuilder.createSample]
  dsimp only
  rw [map_append, map_singleton, ← hlen]
  refine congrArg (fun y => p.sample.map _ ++ [y]) ?_
  cases kind <;> simp [Kind.sampleType] at htype <;>
    simp [Options.addValue, Options.newSample, Kind.scaled, htype]

theorem written_turn (h : Written kind opt s) : Written kind opt (turn kind opt a i e s) := by
  have hrefreshed : Written kind opt
      (if e.pid ∈ s.refreshed then s else { s with refreshed := s.refreshed ++ [e.pid] }) := by
    split
    · exact h
    · exact h
  unfold turn
  dsimp only
  cases a.lookupUser (stackID e.userStack) with
  | none => exact hrefreshed
  | some stack =>
    dsimp only
    split
    · exact hrefreshed
    · generalize (if e.pid ∈ s.refreshed then s else { s with refreshed := s.refreshed ++ [e.pid] }) = s' at hrefreshed ⊢
      unfold Written addEntry
      dsimp only [Collected.samples]
      rw [value_addSample kind opt _ rfl rfl, map_append, ← hrefreshed]
      refine congrArg (· ++ _) ?_
      unfold Collected.samples
      cases s'.builder <;> rfl

end Turn

/-! ## A whole collection -/

section Loop

variable (kind : Kind) (opt : Options) (answers : Nat → Answers)

theorem emitted_collectLoop (i : Nat) (es : List Entry) (s : Collected) :
    (collectLoop kind opt answers i es s).emitted =
      s.emitted ++ ((es.zipIdx i).filter fun p => userRead (answers p.2) p.1).map fun p =>
        (p.2, profileSample kind (answers p.2) p.1) := by
  induction es generalizing i s with
  | nil => exact (append_nil _).symm
  | cons e es ih =>
    rw [collectLoop, ih, emitted_turn, append_assoc, zipIdx_cons, filter_cons]
    dsimp only
    refine congrArg (s.emitted ++ ·) ?_
    split
    · rfl
    · rfl

theorem written_collectLoop (i : Nat) (es : List Entry) (s : Collected) (h : Written kind opt s) :
    Written kind opt (collectLoop kind opt answers i es s) := by
  induction es generalizing i s with
  | nil => exact h
  | cons e es ih => exact ih (i + 1) _ (written_turn kind opt (answers i) i e s h)

theorem filter_zipIdx {α : Type} (l : List α) (k : Nat) {p : α × Nat} (hp : p ∈ l.zipIdx k) (f : α × Nat → Bool) :
    (((l.zipIdx k).filter f).filter fun q => q.2 == p.2) = if f p then [p] else [] := by
  induction l generalizing k with
  | nil => cases hp
  | cons x l ih =>
    have hlater : ∀ q ∈ l.zipIdx (k + 1), k < q.2 := fun q hq => le_snd_of_mem_zipIdx hq
    rw [zipIdx_cons] at hp ⊢
    rcases mem_cons.mp hp with rfl | hp
    · have hrest : (((l.zipIdx (k + 1)).filter f).filter fun q => q.2 == k) = [] := by
        apply filter_eq_nil_iff.mpr
        intro q hq
        have hlt := hlater q (mem_of_mem_filter hq)
        rw [beq_iff_eq]
        omega
      rw [filter_cons]
      split
      · rw [filter_cons, if_pos (beq_self_eq_true _), hrest]
      · exact hrest
    · have hne : (k == p.2) = false := by
        have := hlater p hp
        rw [beq_eq_false_iff_ne]
        omega
      rw [← ih (k + 1) hp, filter_cons]
      split
      · rw [filter_cons, if_neg (by rw [hne]; exact Bool.false_ne_true)]
      · rfl

variable (es : List Entry)

theorem emitted_collect : (collect kind opt answers es).emitted =
      (es.zipIdx.filter fun p => userRead (answers p.2) p.1).map fun p =>
        (p.2, profileSample kind (answers p.2) p.1) := emitted_collectLoop kind opt answers 0 es {}

theorem emitted_of_turn {p : Entry × Nat} (hp : p ∈ es.zipIdx) :
    ((collect kind opt answers es).emitted.filter fun q => q.1 == p.2) =
      if userRead (answers p.2) p.1 then [(p.2, profileSample kind (answers p.2) p.1)] else [] := by
  rw [emitted_collect, filter_map]
  have hturn := filter_zipIdx es 0 hp fun p => userRead (answers p.2) p.1
  refine (congrArg (List.map _) hturn).trans ?_
  split <;> rfl

/-- The weight is kept, with one sample for each entry that a stack could be read for, if and only if no
entry has its kernel stack alone. -/
theorem conserves_iff : Conserves kind opt answers es ↔ NoKernelOnly answers es := by
  constructor
  · intro h p hp hkern
    have hreadable : p ∈ readable answers es :=
      mem_filter.mpr ⟨hp, by rw [hkern, Bool.true_or]⟩
    have honce := h.once p hreadable
    rw [emitted_of_turn kind opt answers es hp] at honce
    by_contra hno
    rw [if_neg hno] at honce
    cases honce
  · intro h
    have hsame : readable answers es = es.zipIdx.filter fun p => userRead (answers p.2) p.1 := by
      apply filter_congr
      intro p hp
      cases hkern : kernRead (answers p.2) p.1 with
      | false => exact Bool.false_or _
      | true => rw [h p hp hkern, Bool.true_or]
    constructor
    · exact written_collectLoop kind opt answers 0 es {} rfl
    · rw [hsame, emitted_collect, map_map]
      rfl
    · intro p hp
      rw [hsame] at hp
      obtain ⟨hmem, huser⟩ := mem_filter.mp hp
      rw [emitted_of_turn kind opt answers es hmem, if_pos huser]

end Loop

/-! ## The mappings that are read again -/

/-! ## A kernel stack alone -/

/-- A process that was sampled five times where its user stack could not be walked. -/
def kernelOnly : Entry := { pid := 7, kernStack := 1, userStack := -14, value := 5 }

def kernelOnlyAnswers : Nat → Answers := fun _ =>
  { lookupKern := fun _ => some (leBytes 8 0xffffffffa7f0cfe5)
    lookupUser := fun _ => none
    symbolizeProcess := fun _ _ => []
    symbolizeKernel := fun _ => [] }

/-- Neither profiler has a sample for it. -/
theorem not_conserves : (∀ opt, ¬Conserves (.cpu false) opt kernelOnlyAnswers [kernelOnly]) ∧
    ∀ opt, ¬Conserves .offCpu opt kernelOnlyAnswers [kernelOnly] := by
  have hread : (readable kernelOnlyAnswers [kernelOnly]).map (fun p => p.1.value.toNat) = [5] := by decide
  have hnone : ∀ kind opt, (collect kind opt kernelOnlyAnswers [kernelOnly]).emitted = [] := fun _ _ => rfl
  constructor
  · intro opt h
    have hsum := h.sum
    rw [hread, hnone] at hsum
    cases hsum
  · intro opt h
    have hsum := h.sum
    rw [hread, hnone] at hsum
    cases hsum

end PerfAgent.Profile
