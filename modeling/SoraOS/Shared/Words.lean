import Mathlib.Data.List.TakeWhile

set_option autoImplicit false

/-! The words of a list: what stands between separators. -/

namespace Words

variable {α : Type} {sep : α → Bool}

/-- The maximal runs of elements that are no separators, in order. -/
def words (sep : α → Bool) (l : List α) : List (List α) :=
  (l.splitOnP sep).filter fun w => !w.isEmpty

@[simp] theorem words_nil : words sep [] = [] := rfl

theorem words_cons_sep {x : α} (l : List α) (separator : sep x = true) :
    words sep (x :: l) = words sep l := by
  simp [words, List.splitOnP_cons_eq_if_modifyHead, separator]

theorem words_run {w : List α} (nonempty : w ≠ []) (plain : ∀ x ∈ w, sep x = false) :
    words sep w = [w] := by
  simp [words, List.splitOnP_eq_singleton plain, nonempty]

theorem words_run_sep {w : List α} (nonempty : w ≠ []) (plain : ∀ x ∈ w, sep x = false) {x : α}
    (separator : sep x = true) (l : List α) : words sep (w ++ x :: l) = w :: words sep l := by
  simp [words, List.splitOnP_append_cons_of_forall_mem plain x separator l, nonempty]

theorem words_separators {front : List α} (separators : ∀ x ∈ front, sep x = true) (l : List α) :
    words sep (front ++ l) = words sep l := by
  induction front with
  | nil => rfl
  | cons x front ih =>
      rw [List.cons_append, words_cons_sep _ (separators x (by simp))]
      exact ih fun y member => separators y (List.mem_cons_of_mem _ member)

theorem span (p : α → Bool) (l : List α) :
    ∃ front rest, l = front ++ rest ∧ (∀ x ∈ front, p x = true) ∧
      ∀ x ∈ rest.head?, p x = false := by
  refine ⟨l.takeWhile p, l.dropWhile p, List.takeWhile_append_dropWhile.symm,
    fun x member => List.mem_takeWhile_imp member, ?_⟩
  intro x first
  have stops := List.head?_dropWhile_not p l
  rw [Option.mem_def.mp first] at stops
  exact stops

theorem words_first {w rest : List α} (nonempty : w ≠ []) (plain : ∀ x ∈ w, sep x = false)
    (stop : ∀ x ∈ rest.head?, sep x = true) : words sep (w ++ rest) = w :: words sep rest := by
  cases rest with
  | nil => rw [List.append_nil, words_run nonempty plain, words_nil]
  | cons x rest =>
      have separator : sep x = true := stop x rfl
      rw [words_run_sep nonempty plain separator, words_cons_sep rest separator]

theorem first_word {x : α} (l : List α) (plain : sep x = false) :
    ∃ w rest, x :: l = w ++ rest ∧ w ≠ [] ∧ (∀ y ∈ w, sep y = false) ∧
      (∀ y ∈ rest.head?, sep y = true) ∧ words sep (x :: l) = w :: words sep rest := by
  obtain ⟨w, rest, split, word, stop⟩ := span (fun y => !sep y) (x :: l)
  have nonempty : w ≠ [] := by
    rintro rfl
    have head : x ∈ rest.head? := by
      rw [← List.nil_append rest, ← split]
      rfl
    simpa [plain] using stop x head
  have word' : ∀ y ∈ w, sep y = false := by simpa using word
  have stop' : ∀ y ∈ rest.head?, sep y = true := by simpa using stop
  exact ⟨w, rest, split, nonempty, word', stop', split ▸ words_first nonempty word' stop'⟩

theorem mem_of_mem_splitOnP {l w : List α} {x : α} (piece : w ∈ l.splitOnP sep)
    (inside : x ∈ w) : x ∈ l := by
  induction l generalizing w with
  | nil => simp_all
  | cons y l ih =>
      rw [List.splitOnP_cons_eq_if_modifyHead] at piece
      cases pieces : l.splitOnP sep with
      | nil => exact absurd pieces (List.splitOnP_ne_nil sep l)
      | cons first others =>
          rw [pieces] at ih piece
          split at piece
          next =>
            rcases List.mem_cons.mp piece with rfl | later
            · cases inside
            · exact List.mem_cons_of_mem _ (ih later inside)
          next =>
            rcases List.mem_cons.mp piece with rfl | later
            · rcases List.mem_cons.mp inside with rfl | later
              · simp
              · exact List.mem_cons_of_mem _ (ih (by simp) later)
            · exact List.mem_cons_of_mem _ (ih (List.mem_cons_of_mem _ later) inside)

theorem mem_of_mem_words {l w : List α} {x : α} (word : w ∈ words sep l) (inside : x ∈ w) :
    x ∈ l :=
  mem_of_mem_splitOnP (List.mem_filter.mp word).1 inside

end Words
