import PerfAgent.Debuginfod.RoutedFrames

/-!
# What is written for a batch

A batch, a bucket and all the buckets each come down to a list of writes, whatever was written before.
-/

namespace PerfAgent.Debuginfod

open List

open Procmap (Mapping)
open Symbolize (Frame PtLoad fileOffsetToVirtualAddress)

variable {κ : Type*} {c : Callees κ} {process : UInt64 → Frame} {elf : Name → UInt64 → UInt64 → Frame}

/-! ## What the symbolizers are relied on for -/

namespace Callees

/-- The symbolizers fail, or have the frames of the addresses: of the first few in process-mode, of each
in file-mode. -/
structure Answers (c : Callees κ) (process : UInt64 → Frame) (elf : Name → UInt64 → UInt64 → Frame) : Prop where
  process_address : ∀ ip, (process ip).address = ip
  elf_address : ∀ path ip va, (elf path ip va).address = ip
  process_prefix : ∀ ips frames, c.symbolizeProcess ips = some frames → frames <+: ips.map process
  elf_eq : ∀ path ips vas frames, ips.length = vas.length →
    c.symbolizeElfVirt path ips vas = some frames → frames = List.zipWith (elf path) ips vas

def Complete (c : Callees κ) : Prop :=
  ∀ ips frames, c.symbolizeProcess ips = some frames → frames.length = ips.length

def Parses (c : Callees κ) (path : Name) : Prop :=
  ∀ ips vas, ips.length = vas.length → c.symbolizeElfVirt path ips vas ≠ none

def Refuses (c : Callees κ) (path : Name) : Prop :=
  ∀ ips vas, ips.length = vas.length → c.symbolizeElfVirt path ips vas = none

def mapped (c : Callees κ) (m : Mapping) (ip : UInt64) : Option UInt64 :=
  (c.mapperFor m).bind fun loads => fileOffsetToVirtualAddress loads (ip - m.start + m.offset)

def FromProcess (c : Callees κ) (process : UInt64 → Frame) (ip : UInt64) (f : Frame) : Prop :=
  f = process ip ∨ f = bareFrame ip ∧ ¬ c.Complete

/-- The frames that an address may be given, by its route and mapping. -/
def Answer (c : Callees κ) (process : UInt64 → Frame) (elf : Name → UInt64 → UInt64 → Frame) (place : Place)
    (ip : UInt64) (f : Frame) : Prop :=
  match place with
  | .skip => f = bareFrame ip
  | .process => c.FromProcess process ip f
  | .bucket m path =>
    match c.mapped m ip with
    | none => c.FromProcess process ip f
    | some va => f = elf path ip va ∧ ¬ c.Refuses path ∨ c.FromProcess process ip f ∧ ¬ c.Parses path

variable {ip : UInt64} {f f' : Frame} {place : Place}

theorem FromProcess.address (ha : c.Answers process elf) (h : c.FromProcess process ip f) : f.address = ip := by
  rcases h with rfl | ⟨rfl, -⟩
  · exact ha.process_address ip
  · rfl

theorem Answer.address (ha : c.Answers process elf) (h : c.Answer process elf place ip f) : f.address = ip := by
  cases place with
  | skip => exact congrArg Frame.address h
  | process => exact FromProcess.address ha h
  | bucket m path =>
    unfold Answer at h
    cases hm : c.mapped m ip with
    | none =>
      simp only [hm] at h
      exact h.address ha
    | some va =>
      simp only [hm] at h
      rcases h with ⟨rfl, -⟩ | ⟨h, -⟩
      · exact ha.elf_address path ip va
      · exact h.address ha

theorem FromProcess.eq (hc : c.Complete) (h : c.FromProcess process ip f) : f = process ip :=
  h.resolve_right fun hb => hb.2 hc

theorem Answer.unique (hc : c.Complete) (hs : ∀ path, c.Parses path ∨ c.Refuses path)
    (h : c.Answer process elf place ip f) (h' : c.Answer process elf place ip f') : f = f' := by
  cases place with
  | skip => exact h.trans h'.symm
  | process => exact (FromProcess.eq hc h).trans (FromProcess.eq hc h').symm
  | bucket m path =>
    unfold Answer at h h'
    cases hm : c.mapped m ip with
    | none =>
      simp only [hm] at h h'
      exact (h.eq hc).trans (h'.eq hc).symm
    | some va =>
      simp only [hm] at h h'
      rcases hs path with hp | hr
      · rw [(h.resolve_right fun hf => hf.2 hp).1, (h'.resolve_right fun hf => hf.2 hp).1]
      · rw [(h.resolve_left fun hf => hf.2 hr).1.eq hc, (h'.resolve_left fun hf => hf.2 hr).1.eq hc]

end Callees

/-! ## Writes -/

structure Answered (entries : List (Nat × UInt64)) (R : UInt64 → Frame → Prop) (ws : List (Nat × Frame)) : Prop where
  indices : (ws.map Prod.fst).Perm (entries.map Prod.fst)
  frames : ∀ w ∈ ws, ∃ ip, (w.1, ip) ∈ entries ∧ R ip w.2

namespace Answered

variable {entries entries' : List (Nat × UInt64)} {R R' : UInt64 → Frame → Prop} {ws ws' : List (Nat × Frame)}

theorem nil : Answered [] R [] := ⟨.nil, nofun⟩

theorem append (h : Answered entries R ws) (h' : Answered entries' R ws') :
    Answered (entries ++ entries') R (ws ++ ws') := by
  refine ⟨by rw [map_append, map_append]; exact h.indices.append h'.indices, fun w hw => ?_⟩
  rcases mem_append.mp hw with hw | hw
  · obtain ⟨ip, he, hr⟩ := h.frames w hw
    exact ⟨ip, mem_append_left _ he, hr⟩
  · obtain ⟨ip, he, hr⟩ := h'.frames w hw
    exact ⟨ip, mem_append_right _ he, hr⟩

theorem perm (h : Answered entries R ws) (hp : entries.Perm entries') : Answered entries' R ws :=
  ⟨h.indices.trans (hp.map _), fun w hw =>
    have ⟨ip, he, hr⟩ := h.frames w hw
    ⟨ip, hp.subset he, hr⟩⟩

theorem mono (h : Answered entries R ws) (hr : ∀ e ∈ entries, ∀ f, R e.2 f → R' e.2 f) : Answered entries R' ws :=
  ⟨h.indices, fun w hw =>
    have ⟨ip, he, hrw⟩ := h.frames w hw
    ⟨ip, he, hr _ he _ hrw⟩⟩

end Answered

/-- What `processInto` writes. -/
def processWrites (c : Callees κ) (b : Batch) : Except Halt (List (Nat × Frame)) :=
  match c.symbolizeProcess b.ips with
  | none => .error .failed
  | some frames => .ok (b.indices.zipIdx.map fun e => (e.1, answerAt frames b.ips e.2))

theorem processInto_eq (c : Callees κ) (b : Batch) (out : List Frame) :
    processInto c b out = (processWrites c b).map (scatter · out) := by
  unfold processInto processWrites
  cases c.symbolizeProcess b.ips <;> rfl

theorem processWrites_answered (ha : c.Answers process elf) {b : Batch} {ws : List (Nat × Frame)}
    (h : processWrites c b = .ok ws) : Answered b.entries (c.FromProcess process) ws := by
  unfold processWrites at h
  cases hframes : c.symbolizeProcess b.ips with
  | none => simp [hframes] at h
  | some frames =>
    simp only [hframes, Except.ok.injEq] at h
    subst h
    obtain ⟨rest, hprefix⟩ := ha.process_prefix _ _ hframes
    constructor
    · rw [map_map, b.map_fst_entries]
      exact .of_eq (zipIdx_map_fst 0 b.indices)
    · rintro w hw
      obtain ⟨⟨i, j⟩, he, rfl⟩ := mem_map.mp hw
      have hi : b.indices[j]? = some i := mk_mem_zipIdx_iff_getElem?.mp he
      have hj : j < b.ips.length := b.aligned ▸ (List.getElem?_eq_some_iff.mp hi).1
      have hip : b.ips[j]? = some b.ips[j] := getElem?_eq_getElem hj
      refine ⟨b.ips[j], mem_iff_getElem?.mpr ⟨j, getElem?_zip_eq_some.mpr ⟨hi, hip⟩⟩, ?_⟩
      unfold answerAt
      cases hf : frames[j]? with
      | some f =>
        have hmap : (b.ips.map process)[j]? = some f := by
          rw [← hprefix, getElem?_append_left (List.getElem?_eq_some_iff.mp hf).1, hf]
        rw [getElem?_map, hip, Option.map_some, Option.some.injEq] at hmap
        exact .inl hmap.symm
      | none =>
        refine .inr ⟨by simp [hip], fun hc => ?_⟩
        rw [List.getElem?_eq_none_iff, hc _ _ hframes] at hf
        omega

/-- What `framesInto` writes. -/
def frameWrites (b : Batch) (frames : List Frame) : Except Halt (List (Nat × Frame)) :=
  if b.indices.length ≤ frames.length then .ok (b.indices.zip frames) else .error .outOfRange

theorem framesInto_eq (b : Batch) (frames out : List Frame) :
    framesInto b frames out = (frameWrites b frames).map (scatter · out) := by
  unfold framesInto frameWrites
  split <;> rfl

/-! ## The addresses of a bucket -/

/-- `normalize` parts the entries by whether the mapper has them. -/
structure Parted (at? : UInt64 → Option UInt64) (entries : List (Nat × UInt64)) (n : Normalized) : Prop where
  entries : (n.valid.entries ++ n.fallback.entries).Perm entries
  virt : n.valid.ips.map at? = n.virt.map some
  fallback : ∀ e ∈ n.fallback.entries, at? e.2 = none

theorem parted_normalizeIP {loads : List PtLoad} {m : Mapping} {entries : List (Nat × UInt64)} {n : Normalized}
    (h : Parted (fun ip => fileOffsetToVirtualAddress loads (ip - m.start + m.offset)) entries n) (e : Nat × UInt64) :
    Parted (fun ip => fileOffsetToVirtualAddress loads (ip - m.start + m.offset)) (entries ++ [e])
      (normalizeIP loads m n e.1 e.2) := by
  unfold normalizeIP
  cases hva : fileOffsetToVirtualAddress loads (e.2 - m.start + m.offset) with
  | none =>
    refine ⟨?_, h.virt, fun e' he' => ?_⟩
    · rw [Batch.entries_push, ← append_assoc]
      exact h.entries.append_right [e]
    · rcases Batch.mem_entries_of_mem_push he' with he' | rfl
      · exact h.fallback e' he'
      · exact hva
  | some va =>
    refine ⟨?_, ?_, h.fallback⟩
    · rw [Batch.entries_push, append_assoc]
      exact (perm_append_comm_assoc _ _ _).trans ((h.entries.append_left [e]).trans perm_append_comm)
    · simp only [Batch.ips_push, map_append, h.virt, map_cons, map_nil, hva]

theorem parted_normalize (loads : List PtLoad) (m : Mapping) (b : Batch) :
    Parted (fun ip => fileOffsetToVirtualAddress loads (ip - m.start + m.offset)) b.entries (normalize loads m b) := by
  unfold normalize
  induction b.entries using List.reverseRecOn with
  | nil => exact ⟨.nil, rfl, nofun⟩
  | append_singleton entries e ih =>
    rw [foldl_append]
    exact parted_normalizeIP ih e

namespace Parted

variable {at? : UInt64 → Option UInt64} {entries : List (Nat × UInt64)} {n : Normalized}

theorem length_virt (h : Parted at? entries n) : n.valid.ips.length = n.virt.length := by
  simpa using congrArg List.length h.virt

theorem valid_eq_nil (h : Parted at? entries n) (hv : n.virt = []) : n.valid.entries = [] := by
  rw [← length_eq_zero_iff, Batch.length_entries, Batch.aligned, h.length_virt, hv, length_nil]

theorem frameWrites_answered (h : Parted at? entries n) (ha : c.Answers process elf) {path : Name}
    {frames : List Frame} (hframes : c.symbolizeElfVirt path n.valid.ips n.virt = some frames) :
    ∃ ws, frameWrites n.valid frames = .ok ws ∧
      Answered n.valid.entries (fun ip f => ∃ va, at? ip = some va ∧ f = elf path ip va) ws := by
  have hlen := h.length_virt
  obtain rfl := ha.elf_eq _ _ _ _ hlen hframes
  have hzip : (List.zipWith (elf path) n.valid.ips n.virt).length = n.valid.indices.length := by
    rw [length_zipWith, n.valid.aligned, hlen, Nat.min_self]
  refine ⟨_, if_pos (Nat.le_of_eq hzip.symm), ?_, fun w hw => ?_⟩
  · rw [n.valid.map_fst_entries, map_fst_zip (Nat.le_of_eq hzip.symm)]
  · obtain ⟨j, hj⟩ := mem_iff_getElem?.mp hw
    obtain ⟨hi, hf⟩ := getElem?_zip_eq_some.mp hj
    obtain ⟨ip, va, hip, hva, hf⟩ := getElem?_zipWith_eq_some.mp hf
    refine ⟨ip, mem_iff_getElem?.mpr ⟨j, getElem?_zip_eq_some.mpr ⟨hi, hip⟩⟩, va, ?_, hf.symm⟩
    have hmap := congrArg (fun l => l[j]?) h.virt
    simpa [hip, hva] using hmap

end Parted

/-! ## A bucket -/

/-- What `symbolizeFileBucket` writes. -/
def bucketWrites (c : Callees κ) (b : FileBucket) : Except Halt (List (Nat × Frame)) :=
  match c.mapperFor b.mapping with
  | none => processWrites c b.held
  | some loads =>
    let n := normalize loads b.mapping b.held
    let written :=
      if n.virt = [] then .ok []
      else
        match c.symbolizeElfVirt b.debugPath n.valid.ips n.virt with
        | none => processWrites c n.valid
        | some frames => frameWrites n.valid frames
    match written with
    | .error e => .error e
    | .ok ws => if n.fallback.ips = [] then .ok ws else (processWrites c n.fallback).map (ws ++ ·)

theorem symbolizeFileBucket_eq (c : Callees κ) (b : FileBucket) (out : List Frame) (p : Progress κ) :
    (symbolizeFileBucket c b out p).1 = (bucketWrites c b).map (scatter · out) := by
  unfold symbolizeFileBucket bucketWrites
  cases c.mapperFor b.mapping with
  | none => exact processInto_eq c b.held out
  | some loads =>
    simp only
    generalize normalize loads b.mapping b.held = n
    have hfallback : ∀ ws : List (Nat × Frame),
        (if n.fallback.ips = [] then .ok (scatter ws out) else processInto c n.fallback (scatter ws out)) =
          (if n.fallback.ips = [] then .ok ws else (processWrites c n.fallback).map (ws ++ ·)).map
            (scatter · out) := fun ws => by
      split
      · rfl
      · rw [processInto_eq]
        cases processWrites c n.fallback with
        | error e => rfl
        | ok ws' => exact congrArg Except.ok (scatter_append ws ws' out).symm
    by_cases hv : n.virt = []
    · simp only [hv, if_true]
      exact hfallback []
    · simp only [hv, if_false]
      cases c.symbolizeElfVirt b.debugPath n.valid.ips n.virt with
      | none =>
        simp only [processInto_eq c n.valid]
        cases processWrites c n.valid with
        | error e => rfl
        | ok ws => exact hfallback ws
      | some frames =>
        simp only [framesInto_eq]
        cases frameWrites n.valid frames with
        | error e => rfl
        | ok ws => exact hfallback ws

theorem classified_symbolizeFileBucket (c : Callees κ) (b : FileBucket) (out : List Frame) (p : Progress κ) :
    (symbolizeFileBucket c b out p).2.stats.classified = p.stats.classified := by
  unfold symbolizeFileBucket
  cases c.mapperFor b.mapping with
  | none => rfl
  | some loads =>
    simp only
    generalize normalize loads b.mapping b.held = n
    by_cases hv : n.virt = []
    · simp only [hv, if_true]
      rfl
    · simp only [hv, if_false]
      cases c.symbolizeElfVirt b.debugPath n.valid.ips n.virt with
      | none =>
        simp only
        cases processInto c n.valid out <;> rfl
      | some frames =>
        simp only
        cases framesInto n.valid frames out <;> rfl

end PerfAgent.Debuginfod
