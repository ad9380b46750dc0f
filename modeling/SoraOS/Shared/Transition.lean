import Mathlib.Data.Nat.Find
import Mathlib.Logic.Relation

set_option autoImplicit false

/-!
# Runs of labelled transition systems

Properties of whole runs, and the ways of proving them used here: an invariant
that every step keeps, an invariant that a step keeps exactly when it meets a
side condition, and a variant that fair runs bring down.
-/

namespace Transition

variable {S A : Type}

/-- The property holds in every state that the labels can lead through. -/
def Always (step : S → A → S → Prop) (property : S → Prop) : S → List A → Prop
  | s, [] => property s
  | s, a :: rest => property s ∧ ∀ t, step s a t → Always step property t rest

/-- The condition holds at every step that the labels can lead through. -/
def Meets (step : S → A → S → Prop) (condition : S → A → Prop) : S → List A → Prop
  | _, [] => True
  | s, a :: rest => ∀ t, step s a t → condition s a ∧ Meets step condition t rest

theorem Always.here {step : S → A → S → Prop} {property : S → Prop} {s : S} {labels : List A}
    (h : Always step property s labels) : property s := by
  cases labels with
  | nil => exact h
  | cons a rest => exact h.1

theorem meets_true (step : S → A → S → Prop) (s : S) (labels : List A) :
    Meets step (fun _ _ => True) s labels := by
  induction labels generalizing s with
  | nil => exact trivial
  | cons a rest ih => exact fun t _ => ⟨trivial, ih t⟩

theorem Always.of_run {step : S → A → Option S} {property : S → Prop} {s t : S} {labels : List A}
    (h : Always (fun s a t => step s a = some t) property s labels)
    (ran : labels.foldlM step s = some t) : property t := by
  induction labels generalizing s with
  | nil =>
      obtain rfl := Option.some.inj ran
      exact h
  | cons a rest ih =>
      rw [List.foldlM_cons] at ran
      obtain ⟨next, first, later⟩ := Option.bind_eq_some_iff.mp ran
      exact ih (h.2 next first) later

theorem Meets.of_run {step : S → A → Option S} {condition : S → A → Prop}
    [∀ s a, Decidable (condition s a)] {s t : S} {labels : List A}
    (ran : labels.foldlM (fun s a => if condition s a then step s a else none) s = some t) :
    Meets (fun s a t => step s a = some t) condition s labels := by
  induction labels generalizing s with
  | nil => exact trivial
  | cons a rest ih =>
      rw [List.foldlM_cons] at ran
      obtain ⟨next, first, later⟩ := Option.bind_eq_some_iff.mp ran
      intro u taken
      split at first
      next holds =>
        obtain rfl := Option.some.inj (first.symm.trans taken)
        exact ⟨holds, ih later⟩
      next => cases first

theorem run_of_guarded {step : S → A → Option S} {condition : S → A → Prop}
    [∀ s a, Decidable (condition s a)] {s t : S} {labels : List A}
    (ran : labels.foldlM (fun s a => if condition s a then step s a else none) s = some t) :
    labels.foldlM step s = some t := by
  induction labels generalizing s with
  | nil => exact ran
  | cons a rest ih =>
      rw [List.foldlM_cons] at ran ⊢
      obtain ⟨next, first, later⟩ := Option.bind_eq_some_iff.mp ran
      split at first
      next =>
        rw [first]
        exact ih later
      next => cases first

theorem Meets.later {step : S → A → Option S} {condition : S → A → Prop} {s t : S}
    {labels rest : List A}
    (h : Meets (fun s a t => step s a = some t) condition s (labels ++ rest))
    (ran : labels.foldlM step s = some t) :
    Meets (fun s a t => step s a = some t) condition t rest := by
  induction labels generalizing s with
  | nil =>
      obtain rfl := Option.some.inj ran
      exact h
  | cons a labels ih =>
      rw [List.foldlM_cons] at ran
      obtain ⟨next, first, onward⟩ := Option.bind_eq_some_iff.mp ran
      exact ih (h next first).2 onward

theorem Meets.append {step : S → A → Option S} {condition : S → A → Prop} {s t : S}
    {labels rest : List A} (h : Meets (fun s a t => step s a = some t) condition s labels)
    (ran : labels.foldlM step s = some t)
    (later : Meets (fun s a t => step s a = some t) condition t rest) :
    Meets (fun s a t => step s a = some t) condition s (labels ++ rest) := by
  induction labels generalizing s with
  | nil =>
      obtain rfl := Option.some.inj ran
      exact later
  | cons a labels ih =>
      rw [List.foldlM_cons] at ran
      obtain ⟨next, first, onward⟩ := Option.bind_eq_some_iff.mp ran
      intro u taken
      obtain rfl := Option.some.inj (first.symm.trans taken)
      exact ⟨(h next first).1, ih (h next first).2 onward⟩

-- Where the invariant holds, another condition may be easier to check.
theorem Meets.of_checked {step : S → A → S → Prop} {invariant : S → Prop}
    {condition checked : S → A → Prop} (implies : ∀ s a, invariant s → checked s a → condition s a)
    (keeps : ∀ s a t, invariant s → condition s a → step s a t → invariant t)
    {s : S} (start : invariant s) {labels : List A} (met : Meets step checked s labels) :
    Meets step condition s labels := by
  induction labels generalizing s with
  | nil => exact trivial
  | cons a rest ih =>
      intro t taken
      obtain ⟨now, later⟩ := met t taken
      have holds := implies s a start now
      exact ⟨holds, ih (keeps s a t start holds taken) later⟩

theorem always_of_meets {step : S → A → S → Prop} {property invariant : S → Prop}
    {condition : S → A → Prop} (good : ∀ s, invariant s → property s)
    (keeps : ∀ s a t, invariant s → condition s a → step s a t → invariant t)
    {s : S} (start : invariant s) (labels : List A) (met : Meets step condition s labels) :
    Always step property s labels := by
  induction labels generalizing s with
  | nil => exact good s start
  | cons a rest ih =>
      refine ⟨good s start, fun t taken => ?_⟩
      obtain ⟨now, later⟩ := met t taken
      exact ih (keeps s a t start now taken) later

/-- If the invariant survives a step exactly when the condition holds, the run is good
exactly when all its steps meet the condition. -/
theorem always_iff_meets {step : S → A → S → Prop} {property invariant : S → Prop}
    {condition : S → A → Prop} (good : ∀ s, invariant s → property s)
    (keeps : ∀ s a t, invariant s → condition s a → step s a t → invariant t)
    (breaks : ∀ s a t, invariant s → ¬ condition s a → step s a t → ¬ property t)
    {s : S} (start : invariant s) (labels : List A) :
    Always step property s labels ↔ Meets step condition s labels := by
  refine ⟨fun always => ?_, always_of_meets good keeps start labels⟩
  induction labels generalizing s with
  | nil => exact trivial
  | cons a rest ih =>
      intro t taken
      have met : condition s a :=
        Classical.byContradiction fun unmet =>
          breaks s a t start unmet taken (always.2 t taken).here
      exact ⟨met, ih (keeps s a t start met taken) (always.2 t taken)⟩

theorem reachable_of_run {step : S → A → Option S} {s t : S} {labels : List A}
    (ran : labels.foldlM step s = some t) :
    Relation.ReflTransGen (fun s t => ∃ a, step s a = some t) s t := by
  induction labels generalizing s with
  | nil =>
      obtain rfl := Option.some.inj ran
      exact .refl
  | cons a rest ih =>
      rw [List.foldlM_cons] at ran
      obtain ⟨next, first, later⟩ := Option.bind_eq_some_iff.mp ran
      exact .head ⟨a, first⟩ (ih later)

theorem reachable_invariant {step : S → S → Prop} {invariant : S → Prop}
    (keeps : ∀ s t, invariant s → step s t → invariant t) {s t : S} (start : invariant s)
    (path : Relation.ReflTransGen step s t) : invariant t := by
  induction path with
  | refl => exact start
  | tail _ taken ih => exact keeps _ _ ih taken

section Fairness

def firsts (labels : Nat → A) (n : Nat) : List A := (List.range n).map labels

theorem firsts_succ (labels : Nat → A) (n : Nat) :
    firsts labels (n + 1) = labels 0 :: firsts (fun m => labels (m + 1)) n := by
  rw [firsts, List.range_succ_eq_map, List.map_cons, List.map_map]
  rfl

theorem firsts_add (labels : Nat → A) (n m : Nat) :
    firsts labels (n + m) = firsts labels n ++ firsts (fun i => labels (n + i)) m := by
  rw [firsts, List.range_add, List.map_append, List.map_map]
  rfl

variable {step : S → A → Option S} {condition : S → A → Prop} {counts : A → Prop} {goal : S → Prop}

def Reaches (step : S → A → Option S) (goal : S → Prop) (labels : Nat → A) (s : S) : Prop :=
  ∃ n t, (firsts labels n).foldlM step s = some t ∧ goal t

theorem Reaches.head {labels : Nat → A} {s t : S} (first : step s (labels 0) = some t)
    (h : Reaches step goal (fun n => labels (n + 1)) t) : Reaches step goal labels s := by
  obtain ⟨n, u, ran, reached⟩ := h
  refine ⟨n + 1, u, ?_, reached⟩
  rw [firsts_succ, List.foldlM_cons, first]
  exact ran

theorem again {labels : Nat → A} (fair : ∀ n, ∃ m, n ≤ m ∧ counts (labels m)) (n : Nat) :
    ∃ m, n ≤ m ∧ counts (labels (m + 1)) := by
  obtain ⟨m, later, counted⟩ := fair (n + 1)
  exact ⟨m - 1, by omega, by rwa [Nat.sub_add_cancel (by omega)]⟩

theorem meets_firsts {labels : Nat → A} {s t : S}
    (met : ∀ n, Meets (fun s a t => step s a = some t) condition s (firsts labels n))
    (first : step s (labels 0) = some t) : condition s (labels 0) ∧
      ∀ n, Meets (fun s a t => step s a = some t) condition t
        (firsts (fun n => labels (n + 1)) n) := by
  have split (n : Nat) : condition s (labels 0) ∧
      Meets (fun s a t => step s a = some t) condition t (firsts (fun n => labels (n + 1)) n) := by
    have whole := met (n + 1)
    rw [firsts_succ] at whole
    exact whole t first
  exact ⟨(split 0).1, fun n => (split n).2⟩

variable (counts) in
/--
Some labels come again and again, and each of them brings the variant down; the others leave it.
So the goal is reached.
-/
theorem reaches_of_variant {α : Type} [WellFoundedRelation α] {within : α → S → Prop}
    {labels : Nat → A} {s : S} (fair : ∀ n, ∃ m, n ≤ m ∧ counts (labels m))
    (met : ∀ n, Meets (fun s a t => step s a = some t) condition s (firsts labels n))
    (rests : ∀ a s n, within a s → ¬counts (labels n) → ∃ t, step s (labels n) = some t ∧
      (condition s (labels n) → goal t ∨ within a t))
    (falls : ∀ a s n, within a s → counts (labels n) → ∃ t, step s (labels n) = some t ∧
      (condition s (labels n) → goal t ∨ ∃ b, WellFoundedRelation.rel b a ∧ within b t))
    {a : α} (start : within a s) : Reaches step goal labels s := by
  classical
  have wf := WellFoundedRelation.wf (α := α)
  induction a using wf.induction generalizing s labels with
  | _ a fall =>
      obtain ⟨m, counted, before⟩ : ∃ m, counts (labels m) ∧ ∀ n < m, ¬counts (labels n) := by
        have some : ∃ m, counts (labels m) := (fair 0).imp fun _ both => both.2
        exact ⟨Nat.find some, Nat.find_spec some, fun _ => Nat.find_min some⟩
      induction m generalizing s labels with
      | zero =>
          obtain ⟨t, first, next⟩ := falls a s 0 start counted
          obtain ⟨holds, met⟩ := meets_firsts met first
          refine .head first ?_
          rcases next holds with reached | ⟨b, less, lower⟩
          · exact ⟨0, t, rfl, reached⟩
          · exact fall b less (again fair) met (fun a s n => rests a s (n + 1))
              (fun a s n => falls a s (n + 1)) lower
      | succ m ih =>
          obtain ⟨t, first, next⟩ := rests a s 0 start (before 0 (Nat.succ_pos m))
          obtain ⟨holds, met⟩ := meets_firsts met first
          refine .head first ?_
          rcases next holds with reached | same
          · exact ⟨0, t, rfl, reached⟩
          · exact ih (again fair) met (fun a s n => rests a s (n + 1)) (fun a s n => falls a s (n + 1))
              same counted fun n less => before (n + 1) (Nat.succ_lt_succ less)

end Fairness

end Transition
