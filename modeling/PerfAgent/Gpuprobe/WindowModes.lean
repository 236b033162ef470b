import PerfAgent.Gpu.SerializationCoverage
import PerfAgent.Gpuprobe.Wire

/-!
# What a mode byte can clear

A window record carries its mode as a byte.  The decoder takes any byte, the consumer casts
it, and the classifier asks whether it is unset and whether it is the serialized mode; any
other value falls into the arm of the continuous mode.  So a window of a mode that nobody
defined speaks for the executions it meets, and its end and its promise carry the coverage.

`Undecided` is what remains of the answer when the modes are left out: the interval is
covered and nothing that it meets is open, unset or serialized.
-/

namespace PerfAgent

namespace Gpu

namespace SamplingWindow

def modeDefined (w : SamplingWindow) : Bool :=
  w.mode == .continuous || w.mode == .kernelSerialized

theorem mode_of_modeDefined {w : SamplingWindow} (hp : w.proves = false)
    (ha : w.ambiguous = false) : w.modeDefined = true ↔ w.mode = .continuous := by
  have hopen : w.isOpen = false := by
    rw [ambiguous, Bool.or_eq_false_iff] at ha
    exact ha.1
  rw [proves, hopen, serializes] at hp
  simp_all [modeDefined]

end SamplingWindow

namespace WindowSet

def Covers (set : WindowSet) (s e : Nat) : Prop :=
  set.coverageStartNs ≤ s ∧ ∃ c, set.coverageEndNs = some c ∧ e ≤ c

/-- Nothing but the modes of the windows it meets speaks against the interval. -/
def Undecided (set : WindowSet) (s e : Nat) : Prop :=
  s ≤ e ∧ set.haveCoverage = true ∧ (∀ w ∈ set.wins, w.intersects s e = true → w.proves = false ∧ w.ambiguous = false) ∧
    set.Covers s e

def defined (set : WindowSet) : WindowSet :=
  { set with wins := set.wins.filter SamplingWindow.modeDefined }

/-- Every window that the interval meets is closed and of the continuous mode, and the
interval lies within the coverage. -/
def ProvenQuiet (set : WindowSet) (s e : Nat) : Prop :=
  (∀ w ∈ set.wins, w.intersects s e = true → w.isOpen = false ∧ w.mode = .continuous) ∧
    set.Covers s e

theorem classify_eq_notSerialized_iff {set : WindowSet} {s e : Nat} :
    set.classify s e = .notSerialized ↔ set.Undecided s e := classify_eq_notSerialized

theorem cleared_provenQuiet_iff (set : WindowSet) (s e : Nat) :
    (set.classify s e = .notSerialized → set.ProvenQuiet s e) ↔
      (set.Undecided s e → ∀ w ∈ set.wins, w.intersects s e = true → w.modeDefined = true) := by
  rw [classify_eq_notSerialized_iff]
  refine imp_congr_right fun hu => ?_
  obtain ⟨-, -, hquiet, hcov⟩ := hu
  constructor
  · intro h w hw hi
    obtain ⟨hp, ha⟩ := hquiet w hw hi
    exact (SamplingWindow.mode_of_modeDefined hp ha).mpr (h.1 w hw hi).2
  · intro h
    refine ⟨fun w hw hi => ?_, hcov⟩
    obtain ⟨hp, ha⟩ := hquiet w hw hi
    refine ⟨?_, (SamplingWindow.mode_of_modeDefined hp ha).mp (h w hw hi)⟩
    rw [SamplingWindow.ambiguous, Bool.or_eq_false_iff] at ha
    exact ha.1

/-- A cleared interval is cleared without the windows of undefined modes too, when these are
not what covers it. -/
theorem cleared_defined_iff (set : WindowSet) (s e : Nat) :
    (set.classify s e = .notSerialized → set.defined.classify s e = .notSerialized) ↔
      (set.Undecided s e → set.defined.Covers s e) := by
  rw [classify_eq_notSerialized_iff, classify_eq_notSerialized_iff]
  refine imp_congr_right fun hu => ?_
  obtain ⟨hse, hhave, hquiet, -⟩ := hu
  constructor
  · exact fun h => h.2.2.2
  · intro h
    refine ⟨hse, hhave, fun w hw hi => ?_, h⟩
    exact hquiet w (List.mem_of_mem_filter hw) hi

end WindowSet

end Gpu

namespace Gpuprobe

open Gpu Gpu.WindowStore

/-- One window record as it reaches the consumer: the process it is from, the loss before it
and its bytes. -/
structure RawWindow where
  pid : Nat
  lost : Nat := 0
  bytes : List UInt8

def RawWindow.event (backend : GPUBackendID) (r : RawWindow) : Option GPUSamplingWindow :=
  match decodeSamplingWindow r.bytes with
  | .ok w => some (Consumer.samplingWindow backend r.pid w r.lost)
  | .error _ => none

def receive (backend : GPUBackendID) (maxPerPID maxPIDs : Int) (raws : List RawWindow) : WindowStore :=
  (newWindowStore maxPerPID maxPIDs).run (raws.filterMap (RawWindow.event backend))

def Cleared (st : WindowStore) (pid s e : Nat) : Prop := st.classify pid s e = .notSerialized

def ForHistory (st : WindowStore) (pid : Nat) (P : WindowSet → Prop) : Prop :=
  ∀ set, st.byPID.find? pid = some set → P set

theorem cleared_imp_iff {st : WindowStore} {pid s e : Nat} {P : WindowSet → Prop} :
    (Cleared st pid s e → ForHistory st pid P) ↔
      ForHistory st pid fun set => set.classify s e = .notSerialized → P set := by
  unfold Cleared ForHistory WindowStore.classify
  constructor
  · intro h set hset hc
    refine h ?_ set hset
    rw [hset, if_neg ?_]
    · exact hc
    · exact Nat.not_lt.mpr (WindowSet.classify_eq_notSerialized.mp hc).1
  · intro h hc set hset
    refine h set hset ?_
    rw [hset] at hc
    split_ifs at hc
    exact hc

/-- After any records, a cleared interval meets closed continuous windows only, and lies
within the coverage, exactly when no window of an undefined mode meets it or the answer is
decided otherwise; and the windows of undefined modes can be left out of the answer exactly
when they are not what covers it. -/
theorem cleared_iff (backend : GPUBackendID) (maxPerPID maxPIDs : Int) (raws : List RawWindow) (pid s e : Nat) :
    ((Cleared (receive backend maxPerPID maxPIDs raws) pid s e →
        ForHistory (receive backend maxPerPID maxPIDs raws) pid fun set => set.ProvenQuiet s e) ↔
      ForHistory (receive backend maxPerPID maxPIDs raws) pid fun set => set.Undecided s e →
        ∀ w ∈ set.wins, w.intersects s e = true → w.modeDefined = true) ∧
    ((Cleared (receive backend maxPerPID maxPIDs raws) pid s e →
        ForHistory (receive backend maxPerPID maxPIDs raws) pid fun set =>
          set.defined.classify s e = .notSerialized) ↔
      ForHistory (receive backend maxPerPID maxPIDs raws) pid fun set => set.Undecided s e →
        set.defined.Covers s e) := by
  rw [cleared_imp_iff, cleared_imp_iff]
  refine ⟨forall_congr' fun set => imp_congr_right fun _ => ?_, forall_congr' fun set => imp_congr_right fun _ => ?_⟩
  · exact set.cleared_provenQuiet_iff s e
  · exact set.cleared_defined_iff s e

def undefinedMode : RawWindow :=
  { pid := 1, bytes := [10, 0, 0, 0, 0, 0, 0, 0, 20, 0, 0, 0, 0, 0, 0, 0, 3, 0, 0, 0, 0, 0, 0, 0] }

theorem not_cleared_provenQuiet : ¬∀ (backend : GPUBackendID) (maxPerPID maxPIDs : Int)
    (raws : List RawWindow) (pid s e : Nat),
    Cleared (receive backend maxPerPID maxPIDs raws) pid s e →
      ForHistory (receive backend maxPerPID maxPIDs raws) pid fun set => set.ProvenQuiet s e := by
  intro h
  have hcleared : Cleared (receive "cuda" 4 4 [undefinedMode]) 1 12 15 := by
    unfold Cleared
    decide +kernel
  have hquiet := h "cuda" 4 4 [undefinedMode] 1 12 15 hcleared _
    (show _ = some { wins := [{ startNs := 10, endNs := 20, mode := .other 3, quietMs := 0 }],
                     coverageStartNs := 10, haveCoverage := true } by decide +kernel)
  have hmode := (hquiet.1 _ List.mem_cons_self (by decide)).2
  cases hmode

end Gpuprobe

end PerfAgent
