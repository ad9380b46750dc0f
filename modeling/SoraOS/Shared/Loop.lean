import Mathlib.Data.Fintype.Pigeonhole
import Mathlib.Logic.Function.Iterate

set_option autoImplicit false

/-!
# Loops over a deterministic step

`while (guard a) a = next(a)`, and when it ends.
-/

namespace Loop

variable {A : Type} (guard : A → Prop) (next : A → A) (start : A)

/-- The guard holds before the rounds 0 to `n`, so that round `n` is made. -/
def Makes (n : Nat) : Prop := ∀ i ≤ n, guard (next^[i] start)

def Ends : Prop := ∃ n, ¬ guard (next^[n] start)

variable {guard next start}

theorem makes_succ {n : Nat} :
    Makes guard next start (n + 1) ↔ guard start ∧ Makes guard next (next start) n := by
  constructor
  next =>
    intro made
    exact ⟨made 0 (Nat.zero_le _), fun i before => made (i + 1) (Nat.succ_le_succ before)⟩
  next =>
    intro ⟨first, rest⟩ i before
    cases i with
    | zero => exact first
    | succ i => exact rest i (Nat.le_of_succ_le_succ before)

theorem ends_iff_not_all : Ends guard next start ↔ ¬ ∀ n, Makes guard next start n := by
  rw [Ends, ← Classical.not_forall]
  exact not_congr ⟨fun all n i _ => all i, fun all n => all n n le_rfl⟩

theorem guard_of_repeat {m n : Nat} (less : m < n) (made : Makes guard next start n)
    (again : next^[m] start = next^[n] start) (i : Nat) : guard (next^[i] start) := by
  -- Past round `n` the loop is where it was `n - m` rounds before.
  induction i using Nat.strongRecOn with
  | ind i earlier =>
      by_cases before : i ≤ n
      next => exact made i before
      next =>
        have here : next^[i] start = next^[i - n + m] start := by
          rw [Function.iterate_add_apply, again, ← Function.iterate_add_apply]
          congr 2
          omega
        rw [here]
        exact earlier _ (by omega)

-- On a finite type a loop ends exactly when it is never twice at the same place.
theorem ends_iff_no_repeat [Finite A] :
    Ends guard next start ↔
      ∀ m n, m < n → Makes guard next start n → next^[m] start ≠ next^[n] start := by
  constructor
  next =>
    intro ⟨last, stops⟩ m n less made again
    exact stops (guard_of_repeat less made again last)
  next =>
    intro fresh
    rw [ends_iff_not_all]
    intro all
    obtain ⟨m, n, different, again⟩ :=
      Finite.exists_ne_map_eq_of_infinite fun n => next^[n] start
    rcases Nat.lt_or_gt_of_ne different with less | more
    · exact fresh m n less (all n) again
    · exact fresh n m more (all m) again.symm

theorem Makes.climbs {measure : A → Nat} {step n : Nat} (made : Makes guard next start n)
    (up : ∀ i < n, measure (next^[i] start) + step ≤ measure (next^[i + 1] start)) :
    measure start + step * n ≤ measure (next^[n] start) := by
  induction n with
  | zero => exact le_rfl
  | succ n ih =>
      have before := ih (fun i inside => made i (by omega)) fun i inside => up i (by omega)
      have last := up n (Nat.lt_succ_self n)
      rw [Nat.mul_succ]
      omega

end Loop
