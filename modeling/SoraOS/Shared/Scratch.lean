import Mathlib.Control.Basic
import Mathlib.Data.List.Basic

set_option autoImplicit false

/-!
Computations that are given memory with arbitrary contents, and what they return whatever it holds.
-/

abbrev Scratch (σ : Type) := StateT σ Option

namespace Scratch

variable {σ α β : Type}

/-- The computation succeeds, and its result does not depend on the memory. -/
def Returns (p : Scratch σ α) (a : α) : Prop := ∀ s, ∃ s', p.run s = some (a, s')

theorem returns_pure (a : α) : Returns (pure a : Scratch σ α) a := fun s => ⟨s, rfl⟩

theorem Returns.bind {p : Scratch σ α} {f : α → Scratch σ β} {a : α} {b : β} (first : Returns p a)
    (next : Returns (f a) b) : Returns (p >>= f) b := by
  intro s
  obtain ⟨s', run⟩ := first s
  obtain ⟨s'', last⟩ := next s'
  exact ⟨s'', by rw [StateT.run_bind, run]; exact last⟩

theorem returns_lift {o : Option α} {a : α} (value : o = some a) :
    Returns (StateT.lift o : Scratch σ α) a := by
  intro s
  exact ⟨s, by rw [value]; rfl⟩

theorem returns_mapM {l : List α} {f : α → Scratch σ β} {g : α → β}
    (each : ∀ x ∈ l, Returns (f x) (g x)) : Returns (l.mapM f) (l.map g) := by
  induction l with
  | nil => exact returns_pure []
  | cons x rest ih =>
      rw [List.mapM_cons]
      apply (each x (by simp)).bind
      apply (ih fun y member => each y (List.mem_cons_of_mem _ member)).bind
      exact returns_pure _

end Scratch
