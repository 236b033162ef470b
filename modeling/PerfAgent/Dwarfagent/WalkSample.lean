import PerfAgent.Bpf.PythonChain
import PerfAgent.Bpf.UnservedHandoff
import PerfAgent.Dwarfagent.Sample

/-!
# From the walk to the sample

The kernel side and the agent together: a walk whose module is the walker of `python_walk.h` is a run of the walk with
any modules, and what the agent reads of a record that such a run emits are the segments of the record, each native
frame with the frames of the interpreter that were pushed for it.
-/

namespace PerfAgent.Dwarfagent

open List

open Bpf Bpf.Walk

/-! ## The walk with one module -/

variable {env : WalkEnv} {py : PyEnv}

variable {maps maps' : WalkMaps} {pid tid : UInt32} {pc fp sp : UInt64} {as : List WalkAction} {st : WalkPersist}
  {n : Nat}

theorem emits {s : Walk} {a : WalkAction} (h : s.step env a = some (.ended st maps' (some n))) :
    moduleRuns [a] = [] ∧ n = min s.ctx.nPcs maxFrames ∧ maps'.record = s.ctx.maps.record := by
  cases s with
  | looping st₁ w idx =>
    cases a with
    | turn =>
      unfold Walk.step at h
      dsimp only at h
      split at h
      · have := Option.some.inj h
        split at this <;> cases this
      · cases h
    | _ => cases h
  | looped st₁ w =>
    cases a with
    | dispatch tailCall =>
      have h : dispatch env st₁ w tailCall = .ended st maps' (some n) := Option.some.inj h
      unfold dispatch at h
      split at h
      · split at h
        · cases h
          exact ⟨rfl, rfl, rfl⟩
        · cases tailCall <;> cases h
          exact ⟨rfl, rfl, rfl⟩
      · cases h
        exact ⟨rfl, rfl, rfl⟩
    | _ => cases h
  | resumeWalk st₁ maps₁ =>
    cases a with
    | resumeWalk =>
      have h : (if st₁.stopped then finish st₁ (walkLoad st₁ maps₁) else .looping st₁ (walkLoad st₁ maps₁) 0) =
          .ended st maps' (some n) := Option.some.inj h
      split at h <;> cases h
      exact ⟨rfl, rfl, rfl⟩
    | _ => cases h
  | inModule =>
    cases a with
    | module run tailCall => cases tailCall <;> cases h
    | _ => cases h
  | resumeStep =>
    cases a with
    | resumeStep tailCall => cases tailCall <;> cases h
    | _ => cases h
  | ended => cases h

end PerfAgent.Dwarfagent
