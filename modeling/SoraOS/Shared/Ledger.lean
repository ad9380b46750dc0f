import Mathlib.Data.Finset.Card
import Mathlib.Data.List.Nodup

set_option autoImplicit false

/-!
# Ledgers of a finite supply

A fixed set of items, split into those still free and the list of those handed out.
-/

namespace Ledger

variable {P : Type} [DecidableEq P]

structure Splits (whole free : Finset P) (held : List P) : Prop where
  nodup : held.Nodup
  apart : ∀ p ∈ held, p ∉ free
  covers : ∀ p, p ∈ whole ↔ p ∈ free ∨ p ∈ held

omit [DecidableEq P] in
theorem splits_start (whole : Finset P) : Splits whole whole [] :=
  ⟨List.nodup_nil, by simp, by simp⟩

theorem Splits.take {whole free : Finset P} {held : List P} (h : Splits whole free held) {p : P}
    (isFree : p ∈ free) : Splits whole (free.erase p) (held ++ [p]) := by
  have unheld : p ∉ held := fun member => h.apart p member isFree
  refine ⟨?_, ?_, ?_⟩
  · rw [← List.concat_eq_append]
    exact h.nodup.concat unheld
  · intro q member taken
    obtain ⟨different, stillFree⟩ := Finset.mem_erase.mp taken
    have older : q ∈ held := by simpa [different] using member
    exact h.apart q older stillFree
  · intro q
    rw [h.covers q]
    by_cases same : q = p <;> simp [same, isFree]

theorem Splits.give {whole free : Finset P} {held : List P} (h : Splits whole free held) {p : P}
    (isHeld : p ∈ held) : Splits whole (insert p free) (held.erase p) := by
  refine ⟨h.nodup.erase p, ?_, ?_⟩
  · intro q member
    obtain ⟨different, older⟩ := h.nodup.mem_erase_iff.mp member
    simp [different, h.apart q older]
  · intro q
    rw [h.covers q]
    by_cases same : q = p
    · simp [same, isHeld]
    · simp [same, List.mem_erase_of_ne same]

theorem Splits.sdiff {whole free : Finset P} {held : List P} (h : Splits whole free held) :
    whole \ free = held.toFinset := by
  ext p
  have outside := h.apart p
  rw [Finset.mem_sdiff, h.covers p, List.mem_toFinset]
  tauto

theorem Splits.card {whole free : Finset P} {held : List P} (h : Splits whole free held) :
    free.card + held.length = whole.card := by
  have inside : free ⊆ whole := fun p isFree => (h.covers p).mpr (Or.inl isFree)
  have rest := Finset.card_sdiff_add_card_eq_card inside
  rw [h.sdiff, List.toFinset_card_of_nodup h.nodup] at rest
  omega

theorem map_erase_of_nodup {A : Type} [DecidableEq A] (f : A → P) {l : List A} {a : A}
    (distinct : (l.map f).Nodup) (member : a ∈ l) : (l.map f).erase (f a) = (l.erase a).map f := by
  induction l with
  | nil => simp at member
  | cons b rest ih =>
      rw [List.map_cons, List.nodup_cons] at distinct
      by_cases same : b = a
      · subst same
        simp
      · have later : a ∈ rest := by simpa [Ne.symm same] using member
        have other : f b ≠ f a := fun equal => distinct.1 (equal ▸ List.mem_map_of_mem later)
        simp [same, other, ih distinct.2 later]

end Ledger
