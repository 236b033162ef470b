import PerfAgent.Lib.Machine
import PerfAgent.Gpuprobe.Batches

/-!
# Names that never came

A launch or an execution takes one of several routes to the sink: named at once, held and
released by its name, held and released by the bound of the queue or by a flush, or never held.
Each route says for itself whether the name was missing, and `KernelNamesUnresolved` and
`StallNamesMissing` count what the routes say.

The routes agree about what they count, the empty names at the sink, but for one: an event that
is named at once counts as named, also where the table has an empty name for it.  `Books.Off`
says by how much a step puts the counters off, and the launches that wait for their stack are
booked as if they were named already, because a batch that hands on launches learns no name.
-/

namespace PerfAgent.Gpuprobe

open Gpu List

def SinkCall.kernelUnnamed : SinkCall → Bool
  | launch ev => ev.kernelName == ""
  | exec ev => ev.kernelName == ""
  | _ => false

def SinkCall.stallUnnamed : SinkCall → Bool
  | pcSample ev => ev.stallReason == ""
  | _ => false

def NameTable.blank (t : NameTable) (id : Nat) : Bool := (t.get id).any fun k => k.resolved == ""

def NameTable.blankKernel (t : NameTable) (kernelID : Nat) : Bool :=
  kernelID != 0 && t.blank kernelID

/-! ## The books -/

structure Books where
  kernelsUnnamed : Nat
  kernelNamesUnresolved : Nat
  stallsUnnamed : Nat
  stallNamesMissing : Nat

namespace Books

def Exact (b : Books) : Prop :=
  b.kernelNamesUnresolved = b.kernelsUnnamed ∧ b.stallNamesMissing = b.stallsUnnamed

/-- From one state to the next, `n` events and `m` samples without a name were not counted. -/
structure Off (n m : Nat) (b b' : Books) : Prop where
  kernels : b'.kernelsUnnamed + b.kernelNamesUnresolved = b.kernelsUnnamed + b'.kernelNamesUnresolved + n
  stalls : b'.stallsUnnamed + b.stallNamesMissing = b.stallsUnnamed + b'.stallNamesMissing + m

variable {n m n' m' : Nat} {b b' b'' : Books}

theorem Off.refl (b : Books) : Off 0 0 b b := ⟨rfl, rfl⟩

theorem Off.of_eq (h : b' = b) : Off 0 0 b b' := h ▸ .refl b

theorem Off.trans (h : Off n m b b') (h' : Off n' m' b' b'') : Off (n + n') (m + m') b b'' := by
  obtain ⟨hk, hs⟩ := h
  obtain ⟨hk', hs'⟩ := h'
  constructor <;> omega

theorem Off.congr (h : Off n m b b') (hn : n = n') (hm : m = m') : Off n' m' b b' := by
  subst hn hm
  exact h

theorem foldl_off_zero {S B : Type*} {f : S → B → S} {books : S → Books}
    (hf : ∀ s b, Off 0 0 (books s) (books (f s b))) (bs : List B) {s : S} (hs : books s = b) :
    Off 0 0 b (books (bs.foldl f s)) := by
  subst hs
  induction bs generalizing s with
  | nil => exact .refl _
  | cons b bs ih => exact (hf s b).trans ih

end Books

namespace Outlet

variable {accepts : List SinkCall → Bool}

def books (o : Outlet) : Books where
  kernelsUnnamed := o.sent.countP SinkCall.kernelUnnamed
  kernelNamesUnresolved := o.eventStats.kernelNamesUnresolved
  stallsUnnamed := o.sent.countP SinkCall.stallUnnamed
  stallNamesMissing := o.eventStats.stallNamesMissing

def tables (o : Outlet) : NameTable × NameTable := (o.names, o.stalls)

theorem books_emit (o : Outlet) (call : SinkCall) : (o.emit accepts call).books =
      { o.books with
        kernelsUnnamed := o.books.kernelsUnnamed + call.kernelUnnamed.toNat
        stallsUnnamed := o.books.stallsUnnamed + call.stallUnnamed.toNat } := by
  simp only [books, emit, countP_append, countP_singleton]
  cases call.kernelUnnamed <;> cases call.stallUnnamed <;> rfl

theorem off_sinkLocked (o : Outlet) (ev : KernelEvent) (named : Bool)
    (hname : ev.call.kernelUnnamed = false → named = true) :
    Books.Off (ev.call.kernelUnnamed && named).toNat 0 o.books (o.sinkLocked accepts ev named).books := by
  have hstall : ev.call.stallUnnamed = false := by cases ev <;> rfl
  rw [sinkLocked, books_emit, hstall]
  refine ⟨?_, rfl⟩
  cases hk : ev.call.kernelUnnamed with
  | false =>
    rw [hname hk]
    rfl
  | true => cases named <;> simp only [books, Bool.toNat] <;> simp <;> omega

theorem kernelUnnamed_withName (ev : KernelEvent) (name : String) :
    (ev.withName name).call.kernelUnnamed = (name == "") := by
  cases ev <;> rfl

theorem off_releaseUnnamedLocked (o : Outlet) (ev : UnnamedEvent) (name : String) :
    Books.Off 0 0 o.books (o.releaseUnnamedLocked accepts ev name).books := by
  have h := @off_sinkLocked accepts o (ev.event.withName name) (name != "")
    (by rw [kernelUnnamed_withName, bne]; intro h; rw [h]; rfl)
  rw [kernelUnnamed_withName, bne, Bool.and_not_self] at h
  unfold releaseUnnamedLocked
  cases hev : ev.event with
  | launch l => rwa [hev] at h
  | exec e => rwa [hev] at h

theorem tables_releaseUnnamedLocked (o : Outlet) (ev : UnnamedEvent) (name : String) :
    (o.releaseUnnamedLocked accepts ev name).tables = o.tables := by
  unfold releaseUnnamedLocked
  split <;> rfl

theorem off_holdForNameLocked (o : Outlet) (ev : UnnamedEvent) :
    Books.Off 0 0 o.books (o.holdForNameLocked accepts ev).books ∧
      (o.holdForNameLocked accepts ev).tables = o.tables := by
  unfold holdForNameLocked
  dsimp only
  cases (o.unnamed.push ev).1 with
  | none => exact ⟨.of_eq rfl, rfl⟩
  | some released =>
    exact ⟨off_releaseUnnamedLocked { o with unnamed := (o.unnamed.push ev).2 } released "",
      tables_releaseUnnamedLocked { o with unnamed := (o.unnamed.push ev).2 } released ""⟩

theorem off_emitLocked (o : Outlet) (ev : KernelEvent) (kernelID : Nat) :
    Books.Off (o.names.blankKernel kernelID).toNat 0 o.books (o.emitLocked accepts ev kernelID).books ∧
      (o.emitLocked accepts ev kernelID).tables = o.tables := by
  have hblank : o.names.blankKernel kernelID = (o.resolveKernelNameLocked kernelID).any fun name => name == "" := by
    unfold NameTable.blankKernel NameTable.blank resolveKernelNameLocked
    by_cases h : kernelID = 0
    · simp [h]
    · rw [if_neg h, Option.any_map]
      simp [h]
  unfold emitLocked
  rw [hblank]
  cases o.resolveKernelNameLocked kernelID with
  | some name =>
    have h := @off_sinkLocked accepts o (ev.withName name) true fun _ => rfl
    rw [kernelUnnamed_withName, Bool.and_true] at h
    exact ⟨h, rfl⟩
  | none =>
    dsimp only
    split_ifs
    · exact off_holdForNameLocked o _
    · have h := @off_sinkLocked accepts o (ev.withName "") false
        (by rw [kernelUnnamed_withName]; decide)
      rw [Bool.and_false] at h
      exact ⟨h, rfl⟩

theorem off_learnKernelNameLocked (o : Outlet) (rec : KernelNameRecord) :
    Books.Off 0 0 o.books (o.learnKernelNameLocked accepts rec).books :=
  Books.foldl_off_zero (fun o ev => off_releaseUnnamedLocked o ev _) _ rfl

theorem off_releaseUnnamedAllLocked (o : Outlet) : Books.Off 0 0 o.books (o.releaseUnnamedAllLocked accepts).books :=
  Books.foldl_off_zero (fun o ev => off_releaseUnnamedLocked o ev "") _ rfl

/-! ### PC samples -/

theorem off_sinkPCSampleLocked (o : Outlet) (ev : GPUPCSample) (resolved : Bool)
    (hname : (ev.stallReason == "") = false → resolved = true) :
    Books.Off 0 ((ev.stallReason == "") && resolved).toNat o.books
      (o.sinkPCSampleLocked accepts ev resolved).books := by
  rw [sinkPCSampleLocked, books_emit]
  refine ⟨rfl, ?_⟩
  simp only [SinkCall.stallUnnamed]
  cases hs : ev.stallReason == "" with
  | false =>
    rw [hname hs]
    rfl
  | true => cases resolved <;> simp only [books, Bool.toNat] <;> simp <;> omega

theorem off_releaseUnresolvedStallLocked (o : Outlet) (s : UnresolvedSample) (name : String) :
    Books.Off 0 0 o.books (o.releaseUnresolvedStallLocked accepts s name).books := by
  have h := @off_sinkPCSampleLocked accepts o { s.sample with stallReason := name }
    (name != "") (by rw [bne]; intro h; rw [h]; rfl)
  rwa [bne, Bool.and_not_self] at h

theorem off_deliverPCSample (o : Outlet) (ev : GPUPCSample) (stallIndex : Nat) :
    Books.Off 0 (o.stalls.blank stallIndex).toNat o.books (o.deliverPCSample accepts ev stallIndex).books ∧
      (o.deliverPCSample accepts ev stallIndex).tables = o.tables := by
  have hblank : o.stalls.blank stallIndex = (o.resolveStallNameLocked stallIndex).any fun name => name == "" := by
    rw [resolveStallNameLocked, Option.any_map]
    rfl
  unfold deliverPCSample
  rw [hblank]
  cases o.resolveStallNameLocked stallIndex with
  | some name =>
    have h := @off_sinkPCSampleLocked accepts o { ev with stallReason := name } true fun _ => rfl
    rw [Bool.and_true] at h
    exact ⟨h, rfl⟩
  | none =>
    dsimp only [holdForStallNameLocked]
    cases (o.unresolvedStall.push { stallIndex := stallIndex, sample := ev }).1 with
    | none => exact ⟨.of_eq rfl, rfl⟩
    | some released =>
      exact ⟨off_releaseUnresolvedStallLocked
        { o with unresolvedStall := (o.unresolvedStall.push _).2 } released "", rfl⟩

theorem off_learnStallNameLocked (o : Outlet) (rec : StallReason) :
    Books.Off 0 0 o.books (o.learnStallNameLocked accepts rec).books :=
  Books.foldl_off_zero (fun o s => off_releaseUnresolvedStallLocked o s _) _ rfl

theorem off_releaseUnresolvedStallAllLocked (o : Outlet) :
    Books.Off 0 0 o.books (o.releaseUnresolvedStallAllLocked accepts).books :=
  Books.foldl_off_zero (fun o s => off_releaseUnresolvedStallLocked o s "") _ rfl

end Outlet

/-- The launches and executions of a batch that the table has an empty name for. -/
def Batch.blankKernels (names : NameTable) (b : Batch) : Nat :=
  match b.kind with
  | .launch => b.launches.countP fun l => names.blankKernel l.kernelID
  | .exec => b.execs.countP fun e => names.blankKernel e.kernelID
  | _ => 0

/-- The PC samples of a batch that the table has an empty stall reason for. -/
def Batch.blankSamples (stalls : NameTable) (b : Batch) : Nat :=
  match b.kind with
  | .pc => b.pcSamples.countP fun p => stalls.blank p.stallIndex
  | _ => 0

def ConsumerCall.blankKernels (names : NameTable) : ConsumerCall → Nat
  | applyBatch b _ => b.blankKernels names
  | flush => 0

def ConsumerCall.blankSamples (stalls : NameTable) : ConsumerCall → Nat
  | applyBatch b _ => b.blankSamples stalls
  | flush => 0

namespace BatchConsumer

variable {cfg : ConsumerConfig}

/-- The launches of kernels with an empty name that wait for their stack. -/
def blankWaiting (names : NameTable) (c : BatchConsumer) : Nat :=
  c.deferred.held.countP fun d => names.blankKernel d.kernelID = true

/-- The books with the launches that wait for their stack, as if they were sent already. -/
def booksAhead (names : NameTable) (c : BatchConsumer) : Books :=
  { c.toOutlet.books with
    kernelsUnnamed := c.toOutlet.books.kernelsUnnamed + c.blankWaiting names }

theorem off_emitLaunchLocked (names : NameTable) (c : BatchConsumer) (ev : GPUKernelLaunch) (kernelID : Nat) :
    Books.Off (c.names.blankKernel kernelID).toNat 0 (c.booksAhead names)
        ((c.emitLaunchLocked cfg ev kernelID).booksAhead names) ∧
      (c.emitLaunchLocked cfg ev kernelID).tables = c.tables := by
  obtain ⟨⟨hk, hs⟩, htables⟩ :=
    @Outlet.off_emitLocked cfg.accepts c.toOutlet (.launch ev) kernelID
  refine ⟨⟨?_, hs⟩, htables⟩
  have hwaiting : (c.emitLaunchLocked cfg ev kernelID).blankWaiting names = c.blankWaiting names := rfl
  simp only [booksAhead, hwaiting]
  simp only [emitLaunchLocked, Outlet.emitLaunchLocked]
  omega

theorem blankWaiting_deferred (names : NameTable) (c : BatchConsumer)
    {q : HoldQueue DeferredLaunch} {out new : Multiset DeferredLaunch}
    (h : out + q.held = c.deferred.held + new) :
    out.countP (fun d => names.blankKernel d.kernelID = true) + blankWaiting names { c with deferred := q } =
      c.blankWaiting names + new.countP fun d => names.blankKernel d.kernelID = true := by
  have hcount := congrArg (Multiset.countP fun d => names.blankKernel d.kernelID = true) h
  rwa [Multiset.countP_add, Multiset.countP_add] at hcount

theorem countP_blankKernel_singleton (names : NameTable) (d : DeferredLaunch) :
    Multiset.countP (fun d => names.blankKernel d.kernelID = true) {d} = (names.blankKernel d.kernelID).toNat := by
  rw [← Multiset.coe_singleton, Multiset.coe_countP, countP_singleton]
  cases names.blankKernel d.kernelID <;> rfl

theorem off_release (c : BatchConsumer) {q : HoldQueue DeferredLaunch} {d : DeferredLaunch}
    {new : Multiset DeferredLaunch} (h : {d} + q.held = c.deferred.held + new)
    (ev : GPUKernelLaunch) :
    Books.Off (new.countP fun d => c.names.blankKernel d.kernelID = true) 0 (c.booksAhead c.names)
        ((emitLaunchLocked cfg { c with deferred := q } ev d.kernelID).booksAhead c.names) ∧
      (emitLaunchLocked cfg { c with deferred := q } ev d.kernelID).tables = c.tables := by
  obtain ⟨⟨hk, hs⟩, htables⟩ :=
    @off_emitLaunchLocked cfg c.names { c with deferred := q } ev d.kernelID
  have hwaiting := blankWaiting_deferred c.names c h
  rw [countP_blankKernel_singleton] at hwaiting
  refine ⟨⟨?_, hs⟩, htables⟩
  simp only [booksAhead] at hk ⊢
  omega

variable (cfg) in
theorem off_admitLaunchLocked (c : BatchConsumer) (ev : GPUKernelLaunch) (kernelID : Nat) :
    Books.Off (c.names.blankKernel kernelID).toNat 0 (c.booksAhead c.names)
        ((c.admitLaunchLocked cfg ev kernelID).booksAhead c.names) ∧
      (c.admitLaunchLocked cfg ev kernelID).tables = c.tables := by
  unfold admitLaunchLocked
  split_ifs
  · exact off_emitLaunchLocked _ c ev kernelID
  · split
    · next st pending _ =>
        exact off_emitLaunchLocked c.names { c with pending := pending } _ kernelID
    · have hpush := c.deferred.held_push { launch := ev, kernelID := kernelID }
      have hnew := countP_blankKernel_singleton c.names { launch := ev, kernelID := kernelID }
      dsimp only
      split
      · next released hr =>
          rw [hr] at hpush
          have h := @off_release cfg c _ released _ hpush released.launch
          rw [hnew] at h
          exact h
      · next hr =>
          rw [hr] at hpush
          have hwaiting := blankWaiting_deferred c.names c hpush
          rw [hnew] at hwaiting
          refine ⟨⟨?_, rfl⟩, rfl⟩
          simp only [booksAhead] at hwaiting ⊢
          simp at hwaiting
          omega

variable (cfg) in
theorem off_attachFrames (c : BatchConsumer) (pid : Nat) (frames : List Frame) (sl : LaunchSampled) :
    Books.Off 0 0 (c.booksAhead c.names) ((c.attachFrames cfg pid frames sl).booksAhead c.names) ∧
      (c.attachFrames cfg pid frames sl).tables = c.tables := by
  obtain ⟨hheld, -⟩ := c.deferred.held_takeNewest fun d =>
    d.launch.correlation == correlationID cfg pid sl.correlation
  unfold attachFrames
  dsimp only [correlationOf]
  split
  · next held deferred htake =>
      rw [htake] at hheld
      exact @off_release cfg c deferred held 0 (hheld.trans (add_zero _).symm) _
  · exact ⟨.of_eq rfl, rfl⟩

variable (cfg) in
theorem off_attachResolved (c : BatchConsumer) (st : StackStats) (pid : Nat) (frames : List Frame)
    (sl : LaunchSampled) :
    Books.Off 0 0 (c.booksAhead c.names) ((c.attachResolved cfg st pid frames sl).booksAhead c.names) ∧
      (c.attachResolved cfg st pid frames sl).tables = c.tables := by
  unfold attachResolved
  split
  · exact ⟨.of_eq rfl, rfl⟩
  · exact ⟨.of_eq rfl, rfl⟩
  · generalize collapseFrames cfg st frames = r
    obtain ⟨shown, st'⟩ := r
    exact off_attachFrames cfg { c with stackStats := st' } pid shown sl

variable (cfg) in
theorem off_attachSampledStackLocked (env : StackEnv) (c : BatchConsumer) (pid : Nat)
    (stackID : Int) (sl : LaunchSampled) :
    Books.Off 0 0 (c.booksAhead c.names) ((c.attachSampledStackLocked cfg env pid stackID sl).booksAhead c.names) ∧
      (c.attachSampledStackLocked cfg env pid stackID sl).tables = c.tables := by
  unfold attachSampledStackLocked
  split_ifs
  · exact ⟨.refl _, rfl⟩
  · exact ⟨.of_eq rfl, rfl⟩
  · split
    · exact ⟨.of_eq rfl, rfl⟩
    · exact off_attachResolved cfg c _ pid _ sl

/-- A fold over events and samples is off by what its steps are off by.  The tables stay as they
are. -/
theorem foldl_off {B : Type} {f : BatchConsumer → B → BatchConsumer} (p q : NameTable → B → Bool)
    (hf : ∀ c b, Books.Off (p c.names b).toNat (q c.stalls b).toNat (c.booksAhead c.names)
        ((f c b).booksAhead c.names) ∧ (f c b).tables = c.tables) (bs : List B)
    (c : BatchConsumer) :
    Books.Off (bs.countP (p c.names)) (bs.countP (q c.stalls)) (c.booksAhead c.names)
        ((bs.foldl f c).booksAhead c.names) ∧
      (bs.foldl f c).tables = c.tables := by
  induction bs generalizing c with
  | nil => exact ⟨.refl _, rfl⟩
  | cons b bs ih =>
    obtain ⟨hoff, htables⟩ := hf c b
    obtain ⟨hoff', htables'⟩ := ih (f c b)
    obtain ⟨hnames, hstalls⟩ := Prod.mk.inj htables
    rw [hnames, hstalls] at hoff'
    refine ⟨(hoff.trans hoff').congr ?_ ?_, htables'.trans htables⟩
    · rw [countP_cons, add_comm]
      cases p c.names b <;> rfl
    · rw [countP_cons, add_comm]
      cases q c.stalls b <;> rfl

variable (cfg) in
theorem off_releaseDeferredLocked (c : BatchConsumer) :
    Books.Off 0 0 (c.booksAhead c.names) ((c.releaseDeferredLocked cfg).booksAhead c.names) ∧
      (c.releaseDeferredLocked cfg).tables = c.tables := by
  have hwaiting := @blankWaiting_deferred c.names c c.deferred.drain.2 c.deferred.held 0 rfl
  obtain ⟨⟨hk, hs⟩, htables⟩ := foldl_off
    (fun names (held : DeferredLaunch) => names.blankKernel held.kernelID) (fun _ _ => false)
    (fun c held => off_emitLaunchLocked c.names c held.launch held.kernelID) c.deferred.drain.1
    { c with deferred := c.deferred.drain.2 }
  rw [countP_false] at hs
  refine ⟨⟨?_, hs⟩, htables⟩
  have hcount : c.deferred.drain.1.countP (fun held => c.names.blankKernel held.kernelID) =
      c.deferred.held.countP fun d => c.names.blankKernel d.kernelID = true := by
    rw [HoldQueue.held, Multiset.coe_countP]
    simp only [Bool.decide_eq_true]
    rfl
  rw [hcount] at hk
  simp only [booksAhead, releaseDeferredLocked, Multiset.countP_zero] at hk hwaiting ⊢
  omega

/-! ### The records of a batch -/

theorem off_ahead {n m : Nat} (c c' : BatchConsumer)
    (h : Books.Off n m c.toOutlet.books c'.toOutlet.books) (hd : c'.deferred = c.deferred)
    (names : NameTable) : Books.Off n m (c.booksAhead names) (c'.booksAhead names) := by
  obtain ⟨hk, hs⟩ := h
  refine ⟨?_, hs⟩
  simp only [booksAhead, blankWaiting, hd]
  omega

variable (cfg) in
theorem off_applyLaunch (pid : Nat) (c : BatchConsumer) (l : Launch) :
    Books.Off (c.names.blankKernel l.kernelID).toNat 0 (c.booksAhead c.names)
        ((applyLaunch cfg pid c l).booksAhead c.names) ∧
      (applyLaunch cfg pid c l).tables = c.tables :=
  off_admitLaunchLocked cfg (c.countRecord.correlationOf cfg pid l.correlation).2 _ _

variable (cfg) in
theorem off_applyLaunchSampled (env : StackEnv) (pid : Nat) (stackID : Int) (c : BatchConsumer) (sl : LaunchSampled) :
    Books.Off 0 0 (c.booksAhead c.names) ((applyLaunchSampled cfg env pid stackID c sl).booksAhead c.names) ∧
      (applyLaunchSampled cfg env pid stackID c sl).tables = c.tables :=
  off_attachSampledStackLocked cfg env
    { c.countRecord with stackStats := { c.countRecord.stackStats with
      sampledLaunches := c.countRecord.stackStats.sampledLaunches + 1 } } pid stackID sl

variable (cfg) in
theorem off_applyExec (pid : Nat) (c : BatchConsumer) (e : Exec) :
    Books.Off (c.names.blankKernel e.kernelID).toNat 0 (c.booksAhead c.names)
        ((applyExec cfg pid c e).booksAhead c.names) ∧
      (applyExec cfg pid c e).tables = c.tables := by
  obtain ⟨hoff, htables⟩ := @Outlet.off_emitLocked cfg.accepts
    (c.countRecord.correlationOf cfg pid e.correlation).2.toOutlet (.exec (execEvent cfg pid e))
    e.kernelID
  exact ⟨off_ahead c (applyExec cfg pid c e) hoff rfl c.names, htables⟩

variable (cfg) in
theorem off_emitPCSampleLocked (pid : Nat) (c : BatchConsumer) (p : PCSample) :
    Books.Off 0 (c.stalls.blank p.stallIndex).toNat (c.booksAhead c.names)
        ((c.emitPCSampleLocked cfg pid p).booksAhead c.names) ∧
      (c.emitPCSampleLocked cfg pid p).tables = c.tables := by
  obtain ⟨hoff, htables⟩ := @Outlet.off_deliverPCSample cfg.accepts
    (c.correlationOf cfg pid p.correlation).2.toOutlet (pcSampleEvent cfg pid p) p.stallIndex
  exact ⟨off_ahead c (c.emitPCSampleLocked cfg pid p) hoff rfl c.names, htables⟩

variable (cfg) in
theorem off_applyKernelName (names : NameTable) (c : BatchConsumer) (n : KernelNameRecord) :
    Books.Off 0 0 (c.booksAhead names) ((applyKernelName cfg c n).booksAhead names) :=
  off_ahead c (applyKernelName cfg c n) (Outlet.off_learnKernelNameLocked c.countRecord.toOutlet n)
    rfl names

variable (cfg) in
theorem off_applyStallReason (names : NameTable) (c : BatchConsumer) (s : StallReason) :
    Books.Off 0 0 (c.booksAhead names) ((applyStallReason cfg c s).booksAhead names) :=
  off_ahead c (applyStallReason cfg c s) (Outlet.off_learnStallNameLocked c.countRecord.toOutlet s)
    rfl names

variable (cfg) in
theorem off_emitModuleLocked (names : NameTable) (c : BatchConsumer) (m : ModuleLoad) :
    Books.Off 0 0 (c.booksAhead names) ((c.emitModuleLocked cfg m).booksAhead names) :=
  off_ahead c (c.emitModuleLocked cfg m) (.of_eq (Outlet.books_emit _ _)) rfl names

variable (cfg) in
theorem off_noteDropLocked (names : NameTable) (pid : Nat) (c : BatchConsumer) (d : Dropped) :
    Books.Off 0 0 (c.booksAhead names) ((c.noteDropLocked cfg pid d).booksAhead names) := by
  unfold noteDropLocked
  dsimp only
  split_ifs
  · exact .of_eq rfl
  · have hbooks := @Outlet.books_emit cfg.accepts c.toOutlet
      (.graphExecutions { backend := cfg.backend, pid := pid, count := UInt64.ofNat d.count })
    exact .of_eq (congrArg (fun books : Books =>
      { books with kernelsUnnamed := books.kernelsUnnamed + c.blankWaiting names }) hbooks)

variable (cfg) in
theorem books_noteSamplingWindows (c : BatchConsumer) (pid lost : Nat) (ws : List WireWindow) :
    (c.noteSamplingWindows cfg pid lost ws).toOutlet.books = c.toOutlet.books := by
  have hcount : ∀ (s : Consumer × List SinkCall) (lost : Nat) (w : WireWindow),
      (fun sent => (sent.countP SinkCall.kernelUnnamed, sent.countP SinkCall.stallUnnamed))
        (Consumer.noteSamplingWindowLocked
          (fun sent w => (sent ++ [.samplingWindow w], cfg.accepts (sent ++ [.samplingWindow w])))
          s pid w lost).2 =
      (s.2.countP SinkCall.kernelUnnamed, s.2.countP SinkCall.stallUnnamed) := by
    intro s lost w
    simp only [Consumer.noteSamplingWindowLocked, countP_append]
    rfl
  have hsent : (fun sent : List SinkCall =>
      (sent.countP SinkCall.kernelUnnamed, sent.countP SinkCall.stallUnnamed))
        (c.noteSamplingWindows cfg pid lost ws).sent =
      (c.sent.countP SinkCall.kernelUnnamed, c.sent.countP SinkCall.stallUnnamed) := by
    cases ws with
    | nil => rfl
    | cons w ws =>
      exact (foldl_keeps (fun s : Consumer × List SinkCall =>
        (s.2.countP SinkCall.kernelUnnamed, s.2.countP SinkCall.stallUnnamed))
        (fun s w => hcount s 0 w) _ _).trans (hcount (c.toConsumer, c.sent) lost w)
  obtain ⟨hk, hs⟩ := Prod.mk.inj hsent
  simp only [Outlet.books, hk, hs]
  rfl

variable (cfg) in
theorem off_applyRecords (env : StackEnv) (c : BatchConsumer) (b : Batch) (lost : Nat) :
    Books.Off (b.blankKernels c.names) (b.blankSamples c.stalls) (c.booksAhead c.names)
      ((c.applyRecords cfg env b lost).booksAhead c.names) := by
  unfold applyRecords Batch.blankKernels Batch.blankSamples
  cases hk : b.kind with
  | launch =>
    have h := (foldl_off (fun names (l : Launch) => names.blankKernel l.kernelID)
      (fun _ _ => false) (off_applyLaunch cfg b.pid) b.launches c).1
    rw [countP_false] at h
    exact h
  | exec =>
    have h := (foldl_off (fun names (e : Exec) => names.blankKernel e.kernelID)
      (fun _ _ => false) (off_applyExec cfg b.pid) b.execs c).1
    rw [countP_false] at h
    exact h
  | pc =>
    have h := (foldl_off (fun _ _ => false) (fun stalls (p : PCSample) => stalls.blank p.stallIndex)
      (fun c p => off_emitPCSampleLocked cfg b.pid c.countRecord p) b.pcSamples c).1
    rw [countP_false] at h
    exact h
  | launchSampled =>
    have h := (foldl_off (fun _ _ => false) (fun _ (_ : LaunchSampled) => false)
      (off_applyLaunchSampled cfg env b.pid b.stackID) b.sampledLaunches
      { c with stackStats := { c.stackStats with
        stacksMissing := c.stackStats.stacksMissing + if b.stackID < 0 then 1 else 0 } }).1
    rw [countP_false] at h
    exact h
  | kernelName =>
    exact Books.foldl_off_zero (off_applyKernelName cfg c.names) b.kernelNames rfl
  | stallMap =>
    exact Books.foldl_off_zero (off_applyStallReason cfg c.names) b.stallReasons rfl
  | module =>
    exact Books.foldl_off_zero (fun c m => off_emitModuleLocked cfg _ (countRecord c) m) b.modules rfl
  | samplingWindow =>
    exact off_ahead c (c.noteSamplingWindows cfg b.pid lost b.samplingWindows)
      (.of_eq (books_noteSamplingWindows cfg c b.pid lost b.samplingWindows)) rfl c.names
  | config =>
    refine .of_eq (foldl_keeps (booksAhead c.names) ?_ b.configs c)
    exact fun c config => rfl
  | dropped =>
    exact Books.foldl_off_zero (fun c d => off_noteDropLocked cfg _ b.pid (countRecord c) d) b.drops rfl
  | other => exact .of_eq rfl

variable (cfg) in
theorem off_beginBatch (c : BatchConsumer) (b : Batch) :
    Books.Off 0 0 (c.booksAhead c.names) ((c.beginBatch cfg b).2.booksAhead c.names) ∧
      (c.beginBatch cfg b).2.tables = c.tables := by
  unfold beginBatch
  obtain ⟨lost, base⟩ := c.toConsumer.noteSeq b.kind.wire b.pid b.seq
  dsimp only
  split_ifs
  · exact ⟨.of_eq rfl, rfl⟩
  · exact off_releaseDeferredLocked cfg
      { c with toConsumer := { base with stats := { base.stats with
        batches := base.stats.batches + 1 } } }

variable (cfg) in
/-- A call is off by the records it brings that the tables have an empty name for, up to those
that wait for their stack before and after it. -/
theorem off_call (c : BatchConsumer) (call : ConsumerCall) :
    Books.Off (call.blankKernels c.names) (call.blankSamples c.stalls) (c.booksAhead c.names)
      ((c.call cfg call).booksAhead c.names) := by
  cases call with
  | applyBatch b env =>
    obtain ⟨hbegin, htables⟩ := off_beginBatch cfg c b
    have hrecords := off_applyRecords cfg env (c.beginBatch cfg b).2 b (c.beginBatch cfg b).1
    obtain ⟨hnames, hstalls⟩ := Prod.mk.inj htables
    rw [hnames, hstalls] at hrecords
    exact (hbegin.trans hrecords).congr (Nat.zero_add _) (Nat.zero_add _)
  | flush =>
    have hrelease := (off_releaseDeferredLocked cfg c).1
    have hevents := @Outlet.off_releaseUnnamedAllLocked cfg.accepts (c.releaseDeferredLocked cfg).toOutlet
    have hsamples := @Outlet.off_releaseUnresolvedStallAllLocked cfg.accepts
      ((c.releaseDeferredLocked cfg).toOutlet.releaseUnnamedAllLocked cfg.accepts)
    exact hrelease.trans (off_ahead (c.releaseDeferredLocked cfg) (c.flush cfg) (hevents.trans hsamples) rfl c.names)

end BatchConsumer

/-- No launch, execution or sample that the call hands on at once has an empty name in the
tables: the launches that do are, after the call, those that waited for their stack before and
those that came. -/
def NoneBlank (cfg : ConsumerConfig) (c : BatchConsumer) (call : ConsumerCall) : Prop :=
  (c.call cfg call).blankWaiting c.names = c.blankWaiting c.names + call.blankKernels c.names ∧
    call.blankSamples c.stalls = 0

instance NoneBlank.decidable (cfg : ConsumerConfig) (c : BatchConsumer) (call : ConsumerCall) :
    Decidable (NoneBlank cfg c call) :=
  inferInstanceAs (Decidable (_ ∧ _))

open BatchConsumer in
/-- A call keeps the counters exact if, and only if, it hands on nothing that the tables have an
empty name for. -/
theorem exact_call_iff (cfg : ConsumerConfig) {c : BatchConsumer} (hc : c.toOutlet.books.Exact)
    (call : ConsumerCall) : (c.call cfg call).toOutlet.books.Exact ↔ NoneBlank cfg c call := by
  obtain ⟨hk, hs⟩ := off_call cfg c call
  obtain ⟨hk', hs'⟩ := hc
  simp only [booksAhead] at hk hs
  unfold Books.Exact NoneBlank
  omega

/-- After any calls that hand on nothing that the tables have an empty name for, the counters say
how many launches, executions and samples the sink was given without a name. -/
theorem missing_names_exact (cfg : ConsumerConfig) (calls : List ConsumerCall)
    (h : Along (BatchConsumer.call cfg) (NoneBlank cfg) (newConsumer cfg) calls) :
    (consumed cfg calls).eventStats.kernelNamesUnresolved = (consumed cfg calls).sent.countP SinkCall.kernelUnnamed ∧
      (consumed cfg calls).eventStats.stallNamesMissing = (consumed cfg calls).sent.countP SinkCall.stallUnnamed := by
  have hrun : (consumed cfg calls).toOutlet.books.Exact :=
    Along.invariant (I := fun _ c => c.toOutlet.books.Exact) ⟨rfl, rfl⟩
      (fun _ _ call hc hcall => (exact_call_iff cfg hc call).mpr hcall) h
  exact hrun

/-- Names that arrive empty and names that never arrive, for events that wait for them. -/
def nameless : List ConsumerCall :=
  [.applyBatch { kind := .kernelName, kernelNames := [{ kernelID := 1, name := "" }] } {},
   .applyBatch { kind := .exec, execs := [{ correlation := 1, kernelID := 9 }, { correlation := 2, kernelID := 8 }] }
      {},
   .applyBatch { kind := .pc, pcSamples := [{ cubinCRC := 5, correlation := 1, stallIndex := 3 }] } {},
   .applyBatch { kind := .kernelName, kernelNames := [{ kernelID := 9, name := "" }] } {},
   .flush]

theorem missing_names_exact_nameless : (consumed {} nameless).eventStats.kernelNamesUnresolved = 2 ∧
      (consumed {} nameless).eventStats.stallNamesMissing = 1 := by
  obtain ⟨hkernels, hstalls⟩ := missing_names_exact {} nameless (by decide +kernel)
  exact ⟨hkernels.trans (by decide +kernel), hstalls.trans (by decide +kernel)⟩

/-- An execution without a kernel is counted too: no record has the id of a name, and the counter
is not zero. -/
theorem not_kernelNamesUnresolved_of_ids : ¬∀ (cfg : ConsumerConfig) (calls : List ConsumerCall),
      (∀ b env, .applyBatch b env ∈ calls → (∀ l ∈ b.launches, l.kernelID = 0) ∧ ∀ e ∈ b.execs, e.kernelID = 0) →
      (consumed cfg calls).eventStats.kernelNamesUnresolved = 0 := by
  intro h
  have hzero := h {} [.applyBatch { kind := .exec, execs := [{ correlation := 1, kernelID := 0 }] } {}] (by
    intro b env hb
    simp only [mem_singleton, ConsumerCall.applyBatch.injEq] at hb
    rw [hb.1]
    exact ⟨by simp, by simp⟩)
  revert hzero
  decide +kernel

def blankKernelName : List ConsumerCall :=
  [.applyBatch { kind := .kernelName, kernelNames := [{ kernelID := 7, name := "" }] } {},
   .applyBatch { kind := .exec, execs := [{ correlation := 1, kernelID := 7 }] } {}]

-- it is delivered without a name, and is not counted
example : (consumed {} blankKernelName).sent.countP SinkCall.kernelUnnamed = 1 ∧
    (consumed {} blankKernelName).eventStats.kernelNamesUnresolved = 0 := by decide +kernel

end PerfAgent.Gpuprobe
