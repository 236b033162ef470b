import PerfAgent.Lib.HoldQueue
import PerfAgent.Gpuprobe.Wire

/-!
# Naming events and handing them to the sink

The consumer's last stage (`gpuprobe/kernelnames.go`, `gpuprobe/stallnames.go` and the emit,
hold and release functions of `gpuprobe/consumer.go`).  Kernel and stall names arrive on
probes of their own, so an event whose name is still to come is held in a bounded queue, and
goes on when its name arrives, when the queue overflows or when everything is flushed.

The sink is known by the calls made on it, in order, and by its answers: `accepts` says
whether it takes the last of the calls made so far.  A refusal is counted, and nothing else.

`records` is what the stage has been given and not lost: the calls made and the events held,
without the names.  Each function of the stage is one equation about it.
-/

namespace PerfAgent.Gpuprobe

open Gpu

/-! ## Names -/

/-- The bytes of `"…"`, which mark a name that its producer had to cut. -/
def truncatedNameSuffix : String := goString [0xE2, 0x80, 0xA6]

/-- An interned name and whether it arrived whole (`kernelName`, `stallName`). -/
structure InternedName where
  name : String
  truncated : Bool
deriving DecidableEq

def InternedName.resolved (k : InternedName) : String :=
  if k.truncated then k.name ++ truncatedNameSuffix else k.name

/-- A bounded map from ids to names, with the ids in the order of their first insertion
(`kernelNameTable`, `stallNameTable`). -/
structure NameTable where
  byID : AssocMap Nat InternedName := ∅
  order : List Nat := []
  head : Nat := 0
  capacity : Nat

namespace NameTable

/-- Evict from the front of the order while the map is over its bound: the map, and how many
ids went. -/
def evict (capacity : Nat) : List Nat → AssocMap Nat InternedName → Nat → AssocMap Nat InternedName × Nat
  | [], byID, evicted => (byID, evicted)
  | oldest :: order, byID, evicted =>
    if byID.size > capacity then evict capacity order (byID.del oldest) (evicted + 1)
    else (byID, evicted)

def compact (t : NameTable) : NameTable :=
  if t.head = 0 ∨ t.head * 2 < t.order.length then t
  else { t with order := t.order.drop t.head, head := 0 }

/-- Intern a name; what is returned first is how many older names had to go. -/
def put (t : NameTable) (id : Nat) (k : InternedName) : Nat × NameTable :=
  let order := if (t.byID.find? id).isSome then t.order else t.order ++ [id]
  let r := evict t.capacity (order.drop t.head) (t.byID.put id k) 0
  (r.2, compact { t with byID := r.1, order := order, head := t.head + r.2 })

def get (t : NameTable) (id : Nat) : Option InternedName := t.byID.find? id

end NameTable

/-! ## Events -/

inductive SinkCall where
  | launch (ev : GPUKernelLaunch)
  | exec (ev : GPUKernelExec)
  | module (ev : GPUModule)
  | pcSample (ev : GPUPCSample)
  | samplingWindow (ev : GPUSamplingWindow)
  | graphExecutions (ev : GPUGraphExecutions)
deriving DecidableEq

inductive KernelEvent where
  | launch (ev : GPUKernelLaunch)
  | exec (ev : GPUKernelExec)
deriving DecidableEq

namespace KernelEvent

def withName (name : String) : KernelEvent → KernelEvent
  | launch ev => launch { ev with kernelName := name }
  | exec ev => exec { ev with kernelName := name }

def call : KernelEvent → SinkCall
  | launch ev => .launch ev
  | exec ev => .exec ev

end KernelEvent

structure UnnamedEvent where
  kernelID : Nat
  event : KernelEvent

structure UnresolvedSample where
  stallIndex : Nat
  sample : GPUPCSample

structure EventStats where
  kernelNamesLearned : Nat := 0
  kernelNamesTruncated : Nat := 0
  kernelNamesEvicted : Nat := 0
  kernelNamesUnresolved : Nat := 0
  stallNamesLearned : Nat := 0
  stallNamesTruncated : Nat := 0
  stallNamesEvicted : Nat := 0
  stallNamesMissing : Nat := 0
deriving DecidableEq

structure Outlet extends Consumer where
  sent : List SinkCall := []
  names : NameTable
  unnamed : HoldQueue UnnamedEvent
  /-- Whether this producer emits kernel names at all. -/
  sawKernelName : Bool := false
  stalls : NameTable
  unresolvedStall : HoldQueue UnresolvedSample
  eventStats : EventStats := {}

namespace Outlet

variable (accepts : List SinkCall → Bool)

def emit (o : Outlet) (call : SinkCall) : Outlet :=
  { o with
    sent := o.sent ++ [call]
    stats := { o.stats with
      sinkRejected := o.stats.sinkRejected + if accepts (o.sent ++ [call]) then 0 else 1 } }

/-- Deliver an event, named or not: a missing name never costs a record. -/
def sinkLocked (o : Outlet) (ev : KernelEvent) (named : Bool) : Outlet :=
  emit accepts { o with eventStats := { o.eventStats with
    kernelNamesUnresolved := o.eventStats.kernelNamesUnresolved + if named then 0 else 1 } } ev.call

def sinkLaunchLocked (o : Outlet) (ev : GPUKernelLaunch) (named : Bool) : Outlet :=
  sinkLocked accepts o (.launch ev) named

def sinkExecLocked (o : Outlet) (ev : GPUKernelExec) (named : Bool) : Outlet :=
  sinkLocked accepts o (.exec ev) named

/-- The name of a kernel, if it is known.  The id zero is the wire's "no kernel". -/
def resolveKernelNameLocked (o : Outlet) (kernelID : Nat) : Option String :=
  if kernelID = 0 then none else (o.names.get kernelID).map InternedName.resolved

def waitsForNameLocked (o : Outlet) (kernelID : Nat) : Bool := kernelID != 0 && o.sawKernelName

def releaseUnnamedLocked (o : Outlet) (ev : UnnamedEvent) (name : String) : Outlet :=
  match ev.event with
  | .launch l => sinkLaunchLocked accepts o { l with kernelName := name } (name != "")
  | .exec e => sinkExecLocked accepts o { e with kernelName := name } (name != "")

/-- Hold an event until its name arrives; a full queue sends its oldest one on. -/
def holdForNameLocked (o : Outlet) (ev : UnnamedEvent) : Outlet :=
  let r := o.unnamed.push ev
  let o := { o with unnamed := r.2 }
  match r.1 with
  | some released => releaseUnnamedLocked accepts o released ""
  | none => o

/-- Name an event and deliver it, or hold it if its name is still to come. -/
def emitLocked (o : Outlet) (ev : KernelEvent) (kernelID : Nat) : Outlet :=
  match o.resolveKernelNameLocked kernelID with
  | some name => sinkLocked accepts o (ev.withName name) true
  | none =>
    if o.waitsForNameLocked kernelID then
      holdForNameLocked accepts o { kernelID := kernelID, event := ev }
    else sinkLocked accepts o (ev.withName "") false

def emitLaunchLocked (o : Outlet) (ev : GPUKernelLaunch) (kernelID : Nat) : Outlet :=
  emitLocked accepts o (.launch ev) kernelID

def emitExecLocked (o : Outlet) (ev : GPUKernelExec) (kernelID : Nat) : Outlet :=
  emitLocked accepts o (.exec ev) kernelID

/-- Intern a kernel name, and release everything that waits for it. -/
def learnKernelNameLocked (o : Outlet) (rec : KernelNameRecord) : Outlet :=
  let k : InternedName := { name := rec.name, truncated := rec.truncated }
  let t := o.names.put rec.kernelID k
  let waiting := o.unnamed.takeAll fun ev => ev.kernelID == rec.kernelID
  let o := { o with
    sawKernelName := true
    names := t.2
    unnamed := waiting.2
    eventStats := { o.eventStats with
      kernelNamesLearned := o.eventStats.kernelNamesLearned + 1
      kernelNamesTruncated := o.eventStats.kernelNamesTruncated + if rec.truncated then 1 else 0
      kernelNamesEvicted := o.eventStats.kernelNamesEvicted + t.1 } }
  waiting.1.foldl (fun o ev => releaseUnnamedLocked accepts o ev k.resolved) o

def releaseUnnamedAllLocked (o : Outlet) : Outlet :=
  let r := o.unnamed.drain
  r.1.foldl (fun o ev => releaseUnnamedLocked accepts o ev "") { o with unnamed := r.2 }

/-! ### PC samples -/

def sinkPCSampleLocked (o : Outlet) (ev : GPUPCSample) (resolved : Bool) : Outlet :=
  emit accepts { o with eventStats := { o.eventStats with
    stallNamesMissing := o.eventStats.stallNamesMissing + if resolved then 0 else 1 } }
    (.pcSample ev)

def resolveStallNameLocked (o : Outlet) (index : Nat) : Option String :=
  (o.stalls.get index).map InternedName.resolved

def releaseUnresolvedStallLocked (o : Outlet) (s : UnresolvedSample) (name : String) : Outlet :=
  sinkPCSampleLocked accepts o { s.sample with stallReason := name } (name != "")

def holdForStallNameLocked (o : Outlet) (s : UnresolvedSample) : Outlet :=
  let r := o.unresolvedStall.push s
  let o := { o with unresolvedStall := r.2 }
  match r.1 with
  | some released => releaseUnresolvedStallLocked accepts o released ""
  | none => o

/-- The second half of `emitPCSampleLocked`: deliver the sample, or hold it.  It is held
whether or not a stall map was ever seen. -/
def deliverPCSample (o : Outlet) (ev : GPUPCSample) (stallIndex : Nat) : Outlet :=
  match o.resolveStallNameLocked stallIndex with
  | some name => sinkPCSampleLocked accepts o { ev with stallReason := name } true
  | none => holdForStallNameLocked accepts o { stallIndex := stallIndex, sample := ev }

def learnStallNameLocked (o : Outlet) (rec : StallReason) : Outlet :=
  let s : InternedName := { name := rec.name, truncated := rec.truncated }
  let t := o.stalls.put rec.index s
  let waiting := o.unresolvedStall.takeAll fun s => s.stallIndex == rec.index
  let o := { o with
    stalls := t.2
    unresolvedStall := waiting.2
    eventStats := { o.eventStats with
      stallNamesLearned := o.eventStats.stallNamesLearned + 1
      stallNamesTruncated := o.eventStats.stallNamesTruncated + if rec.truncated then 1 else 0
      stallNamesEvicted := o.eventStats.stallNamesEvicted + t.1 } }
  waiting.1.foldl (fun o s' => releaseUnresolvedStallLocked accepts o s' s.resolved) o

def releaseUnresolvedStallAllLocked (o : Outlet) : Outlet :=
  let r := o.unresolvedStall.drain
  r.1.foldl (fun o s => releaseUnresolvedStallLocked accepts o s "")
    { o with unresolvedStall := r.2 }

end Outlet

/-! ## What the stage holds and has delivered -/

inductive EventRecord where
  | launch (ev : GPUKernelLaunch)
  | exec (ev : GPUKernelExec)
  | pcSample (ev : GPUPCSample)
deriving DecidableEq

def launchRecord (ev : GPUKernelLaunch) : EventRecord := .launch { ev with kernelName := "" }

def execRecord (ev : GPUKernelExec) : EventRecord := .exec { ev with kernelName := "" }

def pcSampleRecord (ev : GPUPCSample) : EventRecord := .pcSample { ev with stallReason := "" }

def KernelEvent.record : KernelEvent → EventRecord
  | launch ev => launchRecord ev
  | exec ev => execRecord ev

/-- The record that a call of the sink delivers, if it delivers one. -/
def SinkCall.record? : SinkCall → Option EventRecord
  | launch ev => some (launchRecord ev)
  | exec ev => some (execRecord ev)
  | pcSample ev => some (pcSampleRecord ev)
  | _ => none

variable (ev : KernelEvent)

@[simp] theorem KernelEvent.record?_call : ev.call.record? = some ev.record := by
  cases ev <;> rfl

@[simp] theorem KernelEvent.record_withName (name : String) : (ev.withName name).record = ev.record := by
  cases ev <;> rfl

def delivered (sent : List SinkCall) : List EventRecord := sent.filterMap SinkCall.record?

namespace Outlet

variable {accepts : List SinkCall → Bool}

/-- Everything the stage has been given: delivered, or held for a name. -/
def records (o : Outlet) : Multiset EventRecord :=
  (delivered o.sent : Multiset EventRecord) + o.unnamed.held.map (fun ev => ev.event.record) +
    o.unresolvedStall.held.map (fun s => pcSampleRecord s.sample)

theorem records_emit (o : Outlet) (call : SinkCall) :
    (o.emit accepts call).records = o.records + (call.record?.toList : Multiset EventRecord) := by
  have hsent : delivered (o.sent ++ [call]) = delivered o.sent ++ call.record?.toList := by
    rw [delivered, List.filterMap_append]
    cases h : call.record? <;> simp [delivered, h]
  simp only [records, emit, hsent, ← Multiset.coe_add]
  abel

theorem records_emit_of_none (o : Outlet) {call : SinkCall} (h : call.record? = none) :
    (o.emit accepts call).records = o.records := by
  rw [records_emit, h]
  exact add_zero _

@[simp] theorem records_sinkLocked (o : Outlet) (ev : KernelEvent) (named : Bool) :
    (o.sinkLocked accepts ev named).records = o.records + {ev.record} := by
  rw [sinkLocked, records_emit, KernelEvent.record?_call]
  rfl

@[simp] theorem records_sinkPCSampleLocked (o : Outlet) (ev : GPUPCSample) (resolved : Bool) :
    (o.sinkPCSampleLocked accepts ev resolved).records = o.records + {pcSampleRecord ev} := by
  rw [sinkPCSampleLocked, records_emit]
  rfl

@[simp] theorem records_releaseUnnamedLocked (o : Outlet) (ev : UnnamedEvent) (name : String) :
    (o.releaseUnnamedLocked accepts ev name).records = o.records + {ev.event.record} := by
  unfold releaseUnnamedLocked
  split
  · next h => rw [h, sinkLaunchLocked, records_sinkLocked]; rfl
  · next h => rw [h, sinkExecLocked, records_sinkLocked]; rfl

@[simp] theorem records_releaseUnresolvedStallLocked (o : Outlet) (s : UnresolvedSample) (name : String) :
    (o.releaseUnresolvedStallLocked accepts s name).records = o.records + {pcSampleRecord s.sample} := by
  rw [releaseUnresolvedStallLocked, records_sinkPCSampleLocked]
  rfl

theorem records_unnamed (o o' : Outlet) {out : Multiset UnnamedEvent} (new : Multiset UnnamedEvent)
    (hs : o'.sent = o.sent) (hr : o'.unresolvedStall = o.unresolvedStall)
    (hu : out + o'.unnamed.held = o.unnamed.held + new) :
    o'.records + out.map (fun ev => ev.event.record) = o.records + new.map (fun ev => ev.event.record) := by
  have hmap := congrArg (Multiset.map fun ev => ev.event.record) hu
  rw [Multiset.map_add, Multiset.map_add] at hmap
  calc o'.records + out.map (fun ev => ev.event.record) = (delivered o.sent : Multiset EventRecord) +
          (out.map (fun ev => ev.event.record) + o'.unnamed.held.map fun ev => ev.event.record) +
          o.unresolvedStall.held.map (fun s => pcSampleRecord s.sample) := by
        rw [records, hs, hr]
        abel
    _ = o.records + new.map (fun ev => ev.event.record) := by
        rw [hmap, records]
        abel

theorem records_unresolvedStall (o o' : Outlet) {out : Multiset UnresolvedSample}
    (new : Multiset UnresolvedSample) (hs : o'.sent = o.sent) (hu : o'.unnamed = o.unnamed)
    (hr : out + o'.unresolvedStall.held = o.unresolvedStall.held + new) :
    o'.records + out.map (fun s => pcSampleRecord s.sample) =
      o.records + new.map (fun s => pcSampleRecord s.sample) := by
  have hmap := congrArg (Multiset.map fun s => pcSampleRecord s.sample) hr
  rw [Multiset.map_add, Multiset.map_add] at hmap
  calc o'.records + out.map (fun s => pcSampleRecord s.sample) = (delivered o.sent : Multiset EventRecord) +
          o.unnamed.held.map (fun ev => ev.event.record) +
          (out.map (fun s => pcSampleRecord s.sample) +
            o'.unresolvedStall.held.map fun s => pcSampleRecord s.sample) := by
        rw [records, hs, hu]
        abel
    _ = o.records + new.map (fun s => pcSampleRecord s.sample) := by
        rw [hmap, records]
        abel

theorem records_holdForNameLocked (o : Outlet) (ev : UnnamedEvent) :
    (o.holdForNameLocked accepts ev).records = o.records + {ev.event.record} := by
  have h := records_unnamed o { o with unnamed := (o.unnamed.push ev).2 } _ rfl rfl (o.unnamed.held_push ev)
  rw [Multiset.map_singleton] at h
  unfold holdForNameLocked
  cases hr : (o.unnamed.push ev).1 with
  | none => simpa [hr] using h
  | some released => simpa [hr] using h

theorem records_holdForStallNameLocked (o : Outlet) (s : UnresolvedSample) :
    (o.holdForStallNameLocked accepts s).records = o.records + {pcSampleRecord s.sample} := by
  have h := records_unresolvedStall o { o with unresolvedStall := (o.unresolvedStall.push s).2 } _ rfl rfl
    (o.unresolvedStall.held_push s)
  rw [Multiset.map_singleton] at h
  unfold holdForStallNameLocked
  cases hr : (o.unresolvedStall.push s).1 with
  | none => simpa [hr] using h
  | some released => simpa [hr] using h

@[simp] theorem records_emitLocked (o : Outlet) (ev : KernelEvent) (kernelID : Nat) :
    (o.emitLocked accepts ev kernelID).records = o.records + {ev.record} := by
  unfold emitLocked
  split
  · rw [records_sinkLocked, KernelEvent.record_withName]
  · split_ifs
    · exact records_holdForNameLocked o _
    · rw [records_sinkLocked, KernelEvent.record_withName]

@[simp] theorem records_deliverPCSample (o : Outlet) (ev : GPUPCSample) (stallIndex : Nat) :
    (o.deliverPCSample accepts ev stallIndex).records = o.records + {pcSampleRecord ev} := by
  unfold deliverPCSample
  split
  · rw [records_sinkPCSampleLocked]
    rfl
  · exact records_holdForStallNameLocked o _

@[simp] theorem records_learnKernelNameLocked (o : Outlet) (rec : KernelNameRecord) :
    (o.learnKernelNameLocked accepts rec).records = o.records := by
  unfold learnKernelNameLocked
  rw [foldl_measure fun o ev => records_releaseUnnamedLocked o ev _, ← Multiset.map_coe]
  refine (records_unnamed o _ 0 ?_ ?_ ?_).trans (add_zero _)
  · rfl
  · rfl
  · rw [add_zero]
    exact o.unnamed.held_takeAll _

@[simp] theorem records_learnStallNameLocked (o : Outlet) (rec : StallReason) :
    (o.learnStallNameLocked accepts rec).records = o.records := by
  unfold learnStallNameLocked
  rw [foldl_measure fun o s => records_releaseUnresolvedStallLocked o s _, ← Multiset.map_coe]
  refine (records_unresolvedStall o _ 0 ?_ ?_ ?_).trans (add_zero _)
  · rfl
  · rfl
  · rw [add_zero]
    exact o.unresolvedStall.held_takeAll _

@[simp] theorem records_releaseUnnamedAllLocked (o : Outlet) :
    (o.releaseUnnamedAllLocked accepts).records = o.records := by
  unfold releaseUnnamedAllLocked
  rw [foldl_measure fun o ev => records_releaseUnnamedLocked o ev _, ← Multiset.map_coe]
  refine (records_unnamed o _ 0 ?_ ?_ ?_).trans (add_zero _)
  · rfl
  · rfl
  · rw [HoldQueue.held_drain]
    rfl

@[simp] theorem records_releaseUnresolvedStallAllLocked (o : Outlet) :
    (o.releaseUnresolvedStallAllLocked accepts).records = o.records := by
  unfold releaseUnresolvedStallAllLocked
  rw [foldl_measure fun o s => records_releaseUnresolvedStallLocked o s _, ← Multiset.map_coe]
  refine (records_unresolvedStall o _ 0 ?_ ?_ ?_).trans (add_zero _)
  · rfl
  · rfl
  · rw [HoldQueue.held_drain]
    rfl

/-! ### What a flush leaves -/

theorem unnamed_releaseUnnamedLocked (o : Outlet) (ev : UnnamedEvent) (name : String) :
    (o.releaseUnnamedLocked accepts ev name).unnamed = o.unnamed := by
  unfold releaseUnnamedLocked
  split <;> rfl

theorem held_unnamed_releaseUnnamedAllLocked (o : Outlet) : (o.releaseUnnamedAllLocked accepts).unnamed.held = 0 := by
  unfold releaseUnnamedAllLocked
  rw [foldl_keeps Outlet.unnamed fun o ev => unnamed_releaseUnnamedLocked o ev ""]
  exact o.unnamed.held_drain

variable (accepts) in
theorem queues_releaseUnresolvedStallLocked (o : Outlet) (s : UnresolvedSample) (name : String) :
    ((o.releaseUnresolvedStallLocked accepts s name).unresolvedStall,
      (o.releaseUnresolvedStallLocked accepts s name).unnamed) =
    (o.unresolvedStall, o.unnamed) := rfl

theorem held_releaseUnresolvedStallAllLocked (o : Outlet) :
    (o.releaseUnresolvedStallAllLocked accepts).unresolvedStall.held = 0 ∧
      (o.releaseUnresolvedStallAllLocked accepts).unnamed = o.unnamed := by
  have h := foldl_keeps (fun o : Outlet => (o.unresolvedStall, o.unnamed))
    (fun o s => queues_releaseUnresolvedStallLocked accepts o s "")
    o.unresolvedStall.drain.1 { o with unresolvedStall := o.unresolvedStall.drain.2 }
  obtain ⟨hr, hu⟩ := Prod.mk.inj h
  exact ⟨(congrArg HoldQueue.held hr).trans o.unresolvedStall.held_drain, hu⟩

end Outlet

end PerfAgent.Gpuprobe
