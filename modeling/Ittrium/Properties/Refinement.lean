import Ittrium.Properties.Runs
import Ittrium.Infra.Simulation

/-!
# The kernel and its lists

Over lists there are no pointers, no rings and no bitmap: a queue is the list of those in it.

* `ListStep`, `ListRun` — the runs of the kernel over lists
* `kernel_refines` — **the kernel's runs and those over lists are the same, call by call**
-/

namespace Ittrium

open Infra

variable {cfg : Config}

/-- A sound call made over lists. -/
def ListStep (a : Spec.Model cfg) (l : Label cfg) (a' : Spec.Model cfg) : Prop :=
  Spec.Sound a.core l.1 ∧ Spec.exec l.1 a = .ok (a', l.2)

/-- The runs over lists, from what the memory held at first. -/
abbrev ListRun : List (Event (Spec.Model cfg) (Label cfg)) → Spec.Model cfg → Prop :=
  Run (fun a => ∃ m, a = Refine.initial m) ListStep

/-- What the kernel does is done over lists. -/
theorem kernel_simulated :
    Simulation (Booted : Kernel cfg → Prop) (StepOf SoundCall) (fun a => ∃ m, a = Refine.initial m)
      ListStep Models where
  start := by
    rintro s ⟨m, rfl⟩
    exact ⟨_, ⟨m, rfl⟩, .boot m⟩
  step := by
    intro s a l s' hm hs
    obtain ⟨a', he, hm'⟩ := hm.step hs.1 hs.2
    exact ⟨a', ⟨hm.refines.core ▸ hs.1, he⟩, hm'⟩

/-- What is done over lists the kernel does. -/
theorem lists_simulated :
    Simulation (fun a : Spec.Model cfg => ∃ m, a = Refine.initial m) ListStep Booted
      (StepOf SoundCall) fun a s => Models s a where
  start := by
    rintro a ⟨m, rfl⟩
    exact ⟨_, ⟨m, rfl⟩, .boot m⟩
  step := by
    intro a s l a' hm hs
    have hsound : SoundCall s l.1 := by
      unfold SoundCall
      rw [hm.refines.core]
      exact hs.1
    obtain ⟨s', he, hm'⟩ := hm.exists_step hsound hs.2
    exact ⟨s', ⟨hsound, he⟩, hm'⟩

/-- The kernel over lists does what the kernel does, and nothing else. -/
structure SameRuns (cfg : Config) : Prop where
  sound : ∀ (tr : Trace cfg) s, RunOf SoundCall tr s →
    ∃ tr' a, ListRun tr' a ∧ InStep Models tr tr' ∧ Models s a
  complete : ∀ (tr' : List (Event (Spec.Model cfg) (Label cfg))) a, ListRun tr' a →
    ∃ tr s, RunOf SoundCall tr s ∧ InStep (fun a s => Models s a) tr' tr ∧ Models s a

/-- **The kernel's runs and those over lists are the same, call by call.** -/
theorem kernel_refines (cfg : Config) : SameRuns cfg :=
  ⟨fun _ _ h => kernel_simulated.run h, fun _ _ h => lists_simulated.run h⟩

end Ittrium
