import Mathlib.Data.List.Basic

set_option autoImplicit false

/-!
What goes in comes out, in the same order: for logs of which some entries put something in and some
take something out.
-/

namespace Conservation

variable {N B : Type}

theorem filterMap_split (f : N → Option B) (x : N) (log : List N) :
    (x :: log).filterMap f = (f x).toList ++ log.filterMap f := by
  cases value : f x <;> simp [value]

/-- What was held before and came in is what went out and is held now. -/
def Conserved (enters leaves : N → Option B) (before : List B) (log : List N) (after : List B) :
    Prop :=
  before ++ log.filterMap enters = log.filterMap leaves ++ after

variable {enters leaves : N → Option B} {before middle after : List B}

theorem conserved_nil : Conserved enters leaves before [] before := by
  simp [Conserved]

theorem conserved_cons {x : N} {log : List N}
    (first : before ++ (enters x).toList = (leaves x).toList ++ middle)
    (later : Conserved enters leaves middle log after) :
    Conserved enters leaves before (x :: log) after := by
  rw [Conserved] at later
  rw [Conserved, filterMap_split, filterMap_split, ← List.append_assoc, first, List.append_assoc,
    later, List.append_assoc]

theorem Conserved.mem_entered {log : List N} (h : Conserved enters leaves [] log after) {b : B}
    (left : b ∈ log.filterMap leaves) : b ∈ log.filterMap enters := by
  rw [Conserved, List.nil_append] at h
  rw [h]
  exact List.mem_append_left _ left

end Conservation
