import PerfAgent.Debuginfod.Paths
import PerfAgent.Lib.Scatter
import PerfAgent.Symbolize.Local

/-!
# Routing addresses through debuginfod

`routeAndSymbolize`, `symbolizeFileBucket` and `findMapping` of `symbolize/debuginfod/symbolizer.go`.  The
addresses of a call are scattered into one batch for the process, one bucket for each mapping that has a
debug file, and those that are skipped; the frames come back batch by batch and are written to the
positions that the batch has noted.
-/

namespace PerfAgent.Debuginfod

open Procmap (Mapping)
open Symbolize (Frame PtLoad fileOffsetToVirtualAddress)

variable {κ : Type*}

/-! ## What the router calls -/

/-- `routeKind`. -/
inductive RouteKind where
  | skip
  | processMode
  | fileMode
deriving DecidableEq

structure ClassifyResult where
  route : RouteKind
  debugPath : Name := []
deriving DecidableEq

/-- The callees of the router; `κ` is the state of the classifier, which a fetch changes. -/
structure Callees (κ : Type*) where
  classify : Mapping → κ → ClassifyResult × κ
  /-- `statSig` of a debug file and `markBadDebug` of the signature. -/
  markBadDebug : Name → κ → κ
  /-- The segments of the mapper, if there is one. -/
  mapperFor : Mapping → Option (List PtLoad)
  symbolizeProcess : List UInt64 → Option (List Frame)
  symbolizeElfVirt : Name → List UInt64 → List UInt64 → Option (List Frame)

/-- The counters of `atomicStats` that the router has. -/
structure Stats where
  classifySkipped : Nat := 0
  classifyProcessMode : Nat := 0
  classifyFileMode : Nat := 0
  normalizationFails : Nat := 0
  fileModeParseFails : Nat := 0
  fileModeAddrs : Nat := 0
deriving DecidableEq

def Stats.classified (s : Stats) : Nat := s.classifySkipped + s.classifyProcessMode + s.classifyFileMode

structure Progress (κ : Type*) where
  classifier : κ
  stats : Stats := {}

/-- How a call ends without frames; `outOfRange` is an index that Go panics on. -/
inductive Halt where
  | failed
  | outOfRange
deriving DecidableEq

/-- `symbolize.Frame{Address: ip}` -/
def bareFrame (ip : UInt64) : Frame := { address := ip, name := [] }

def findMapping (mappings : List Mapping) (ip : UInt64) : Option Mapping :=
  mappings.find? fun m => m.start ≤ ip && ip < m.limit

/-! ## Routes -/

structure Batch where
  ips : List UInt64
  indices : List Nat
  aligned : indices.length = ips.length
deriving DecidableEq

namespace Batch

instance : EmptyCollection Batch := ⟨⟨[], [], rfl⟩⟩

def push (b : Batch) (i : Nat) (ip : UInt64) : Batch :=
  ⟨b.ips ++ [ip], b.indices ++ [i], by simp [b.aligned]⟩

def entries (b : Batch) : List (Nat × UInt64) := b.indices.zip b.ips

end Batch

structure FileBucket where
  mapping : Mapping
  debugPath : Name
  held : Batch := ∅

/-- The locals of `routeAndSymbolize` while it goes through the addresses. -/
structure Routing (κ : Type*) extends Progress κ where
  routesByMapping : AssocMap UInt64 ClassifyResult := ∅
  processBatch : Batch := ∅
  fileBuckets : AssocMap UInt64 FileBucket := ∅
  skipped : List Nat := []

namespace Routing

/-- `classifyFor`: a mapping is classified once in a call. -/
def classifyFor (c : Callees κ) (st : Routing κ) (m : Mapping) : ClassifyResult × Routing κ :=
  match st.routesByMapping.find? m.start with
  | some r => (r, st)
  | none =>
    let (r, classifier) := c.classify m st.classifier
    (r, { st with classifier, routesByMapping := st.routesByMapping.put m.start r })

def toProcess (st : Routing κ) (i : Nat) (ip : UInt64) : Routing κ :=
  { st with
    stats := { st.stats with classifyProcessMode := st.stats.classifyProcessMode + 1 }
    processBatch := st.processBatch.push i ip }

def toSkipped (st : Routing κ) (i : Nat) : Routing κ :=
  { st with
    stats := { st.stats with classifySkipped := st.stats.classifySkipped + 1 }
    skipped := i :: st.skipped }

def toBucket (st : Routing κ) (m : Mapping) (debugPath : Name) (i : Nat) (ip : UInt64) : Routing κ :=
  let b := (st.fileBuckets.find? m.start).getD { mapping := m, debugPath }
  { st with
    stats := { st.stats with classifyFileMode := st.stats.classifyFileMode + 1 }
    fileBuckets := st.fileBuckets.put m.start { b with held := b.held.push i ip } }

end Routing

def routeIP (c : Callees κ) (mappings : List Mapping) (st : Routing κ) (i : Nat) (ip : UInt64) : Routing κ :=
  match findMapping mappings ip with
  -- process-mode still has a frame for the address, which keeps its slot
  | none => st.toProcess i ip
  | some m =>
    let (r, st) := st.classifyFor c m
    match r.route with
    | .skip => st.toSkipped i
    | .processMode => st.toProcess i ip
    | .fileMode => st.toBucket m r.debugPath i ip

def routeIPs (c : Callees κ) (mappings : List Mapping) (st : Routing κ) (ips : List UInt64) : Routing κ :=
  ips.zipIdx.foldl (fun st e => routeIP c mappings st e.2 e.1) st

/-! ## Frames -/

/-- What is written at the position of the `j`-th address when `frames` has come back. -/
def answerAt (frames : List Frame) (ips : List UInt64) (j : Nat) : Frame :=
  frames[j]?.getD (bareFrame (ips.getD j 0))

/-- A batch in process-mode: an address that the frames do not reach gets a frame of its own. -/
def processInto (c : Callees κ) (b : Batch) (out : List Frame) : Except Halt (List Frame) :=
  match c.symbolizeProcess b.ips with
  | none => .error .failed
  | some frames => .ok (scatter (b.indices.zipIdx.map fun e => (e.1, answerAt frames b.ips e.2)) out)

def framesInto (b : Batch) (frames out : List Frame) : Except Halt (List Frame) :=
  if b.indices.length ≤ frames.length then .ok (scatter (b.indices.zip frames) out) else .error .outOfRange

structure Normalized where
  virt : List UInt64 := []
  valid : Batch := ∅
  fallback : Batch := ∅

def normalizeIP (loads : List PtLoad) (m : Mapping) (n : Normalized) (i : Nat) (ip : UInt64) : Normalized :=
  match fileOffsetToVirtualAddress loads (ip - m.start + m.offset) with
  | none => { n with fallback := n.fallback.push i ip }
  | some va => { n with virt := n.virt ++ [va], valid := n.valid.push i ip }

def normalize (loads : List PtLoad) (m : Mapping) (b : Batch) : Normalized :=
  b.entries.foldl (fun n e => normalizeIP loads m n e.1 e.2) {}

def symbolizeFileBucket (c : Callees κ) (b : FileBucket) (out : List Frame) (p : Progress κ) :
    Except Halt (List Frame) × Progress κ :=
  match c.mapperFor b.mapping with
  | none =>
    (processInto c b.held out, { p with stats.normalizationFails := p.stats.normalizationFails + b.held.ips.length })
  | some loads =>
    let n := normalize loads b.mapping b.held
    let p := { p with stats.normalizationFails := p.stats.normalizationFails + n.fallback.ips.length }
    let (written, p) :=
      if n.virt = [] then (.ok out, p)
      else
        match c.symbolizeElfVirt b.debugPath n.valid.ips n.virt with
        -- the debug file is not tried again, and its addresses go the way of the process
        | none =>
          (processInto c n.valid out,
            { classifier := c.markBadDebug b.debugPath p.classifier
              stats := { p.stats with fileModeParseFails := p.stats.fileModeParseFails + 1 } })
        | some frames =>
          (framesInto n.valid frames out, { p with stats.fileModeAddrs := p.stats.fileModeAddrs + n.virt.length })
    match written with
    | .error e => (.error e, p)
    | .ok out => (if n.fallback.ips = [] then .ok out else processInto c n.fallback out, p)

/-- The loop over the buckets, in the order in which the map gives them. -/
def symbolizeFileBuckets (c : Callees κ) :
    List FileBucket → List Frame → Progress κ → Except Halt (List Frame) × Progress κ
  | [], out, p => (.ok out, p)
  | b :: bs, out, p =>
    match symbolizeFileBucket c b out p with
    | (.error e, p) => (.error e, p)
    | (.ok out, p) => symbolizeFileBuckets c bs out p

def blankSkipped (skipped : List Nat) (ips : List UInt64) (out : List Frame) : List Frame :=
  out.mapIdx fun i f => if i ∈ skipped then bareFrame (ips.getD i 0) else f

def finishFrames (c : Callees κ) (st : Routing κ) (bs : List FileBucket) (ips : List UInt64) (out : List Frame) :
    Except Halt (List Frame) × Progress κ :=
  match symbolizeFileBuckets c bs out st.toProgress with
  | (.error e, p) => (.error e, p)
  | (.ok out, p) => (.ok (blankSkipped st.skipped ips out), p)

/-- `order` is the order of the map's iteration. -/
def routeAndSymbolize (c : Callees κ) (mappings : List Mapping) (order : List FileBucket → List FileBucket)
    (ips : List UInt64) (p : Progress κ) : Except Halt (List Frame) × Progress κ :=
  let st := routeIPs c mappings { p with } ips
  let out := List.replicate ips.length (bareFrame 0)
  match (if st.processBatch.ips = [] then .ok out else processInto c st.processBatch out) with
  | .error e => (.error e, st.toProgress)
  | .ok out => finishFrames c st (order st.fileBuckets.values) ips out

end PerfAgent.Debuginfod
