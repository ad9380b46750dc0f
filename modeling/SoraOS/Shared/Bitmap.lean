import Mathlib.Data.Finset.Card
import Mathlib.Logic.Function.Basic

set_option autoImplicit false

/-!
# Bitmaps packed into machine words

Bit `i` of a bitmap with `w`-bit words is bit `i % w` of word `i / w`.  A clear
bit marks a free item; the free items below a bound form a finite set, and the
word operations below are insertion and removal on it.
-/

namespace Bitmap

abbrev Words (w : Nat) := Nat → BitVec w

variable {w : Nat}

def set (words : Words w) (i : Nat) : Words w :=
  Function.update words (i / w) (words (i / w) ||| (1#w <<< (i % w)))

def clear (words : Words w) (i : Nat) : Words w :=
  Function.update words (i / w) (words (i / w) &&& ~~~(1#w <<< (i % w)))

def test (words : Words w) (i : Nat) : Bool :=
  (words (i / w) >>> (i % w)) &&& 1#w != 0#w

theorem getLsbD_and_one (x : BitVec w) (i : Nat) :
    (x &&& 1#w).getLsbD i = (x.getLsbD 0 && decide (i = 0)) := by
  rw [BitVec.getLsbD_and, BitVec.getLsbD_one]
  by_cases first : i = 0
  · by_cases positive : 0 < w
    · simp [first, positive]
    · simp [first, positive, BitVec.getLsbD_of_ge x 0 (by omega)]
  · simp [first]

theorem and_one_ne_zero (x : BitVec w) : (x &&& 1#w != 0#w) = x.getLsbD 0 := by
  have bits (i : Nat) := getLsbD_and_one x i
  cases bit : x.getLsbD 0 with
  | false =>
      have zero : x &&& 1#w = 0#w := by
        apply BitVec.eq_of_getLsbD_eq
        intro i _
        rw [bits, bit, BitVec.getLsbD_zero, Bool.false_and]
      simp [zero]
  | true =>
      have nonzero : x &&& 1#w ≠ 0#w := by
        intro equal
        have low := bits 0
        rw [equal, bit, BitVec.getLsbD_zero] at low
        simp at low
      simpa using nonzero

theorem test_eq_getLsbD (words : Words w) (i : Nat) :
    test words i = (words (i / w)).getLsbD (i % w) := by
  simp [test, and_one_ne_zero]

theorem getLsbD_one_shiftLeft (k j : Nat) (inside : j < w) :
    (1#w <<< k).getLsbD j = decide (j = k) := by
  have positive : 0 < w := by omega
  rw [BitVec.getLsbD_shiftLeft, BitVec.getLsbD_one]
  by_cases same : j = k <;> by_cases less : j < k <;> simp [same, less, inside, positive] <;> omega

section Words

variable (positive : 0 < w)

include positive

theorem test_set (words : Words w) (i j : Nat) :
    test (set words i) j = (decide (j = i) || test words j) := by
  have inside := Nat.mod_lt j positive
  simp only [test_eq_getLsbD, set]
  by_cases sameWord : j / w = i / w
  · have sameBit : j % w = i % w ↔ j = i := by
      constructor
      · intro bit
        rw [← Nat.div_add_mod j w, ← Nat.div_add_mod i w, sameWord, bit]
      · rintro rfl
        rfl
    simp only [sameWord, Function.update_self, BitVec.getLsbD_or,
      getLsbD_one_shiftLeft _ _ inside, sameBit]
    exact Bool.or_comm _ _
  · have different : j ≠ i := fun same => sameWord (by rw [same])
    simp [Function.update_of_ne sameWord, different]

theorem test_clear (words : Words w) (i j : Nat) :
    test (clear words i) j = (decide (j ≠ i) && test words j) := by
  have inside := Nat.mod_lt j positive
  simp only [test_eq_getLsbD, clear]
  by_cases sameWord : j / w = i / w
  · have sameBit : j % w = i % w ↔ j = i := by
      constructor
      · intro bit
        rw [← Nat.div_add_mod j w, ← Nat.div_add_mod i w, sameWord, bit]
      · rintro rfl
        rfl
    simp only [sameWord, Function.update_self, BitVec.getLsbD_and, BitVec.getLsbD_not, inside,
      getLsbD_one_shiftLeft _ _ inside, sameBit, decide_true, Bool.true_and, decide_not]
    exact Bool.and_comm _ _
  · have different : j ≠ i := fun same => sameWord (by rw [same])
    simp [Function.update_of_ne sameWord, different]

theorem test_of_full (words : Words w) (i : Nat) (full : words (i / w) = BitVec.allOnes w) :
    test words i = true := by
  simp [test_eq_getLsbD, full, Nat.mod_lt i positive]

end Words

def free (words : Words w) (total : Nat) : Finset Nat :=
  (Finset.range total).filter (fun i => test words i = false)

@[simp] theorem mem_free (words : Words w) (total i : Nat) :
    i ∈ free words total ↔ i < total ∧ test words i = false := by
  simp [free]

theorem free_set (positive : 0 < w) (words : Words w) (total i : Nat) :
    free (set words i) total = (free words total).erase i := by
  ext j
  simp only [mem_free, test_set positive, Finset.mem_erase]
  by_cases same : j = i <;> simp [same]

theorem free_clear (positive : 0 < w) (words : Words w) (total i : Nat) (inside : i < total) :
    free (clear words i) total = insert i (free words total) := by
  ext j
  simp only [mem_free, test_clear positive, Finset.mem_insert]
  by_cases same : j = i <;> simp [same, inside]

/--
Word by word, skipping full words, then bit by bit: the first clear bit of the
first `count` words.
-/
def firstClear (words : Words w) (count : Nat) : Option Nat :=
  (List.range count).findSome? fun i =>
    if words i = BitVec.allOnes w then none
    else (List.range w).findSome? fun bit =>
      if test words (i * w + bit) then none else some (i * w + bit)

theorem firstClear_none (positive : 0 < w) {words : Words w} (count : Nat)
    (nothing : firstClear words count = none) (i : Nat) (inside : i < count * w) :
    test words i = true := by
  have wordInside : i / w < count := Nat.div_lt_of_lt_mul (by rwa [Nat.mul_comm])
  have skipped := List.findSome?_eq_none_iff.mp nothing (i / w) (List.mem_range.mpr wordInside)
  split at skipped
  next full => exact test_of_full positive words i full
  next =>
    have bit := List.findSome?_eq_none_iff.mp skipped (i % w)
      (List.mem_range.mpr (Nat.mod_lt i positive))
    rw [Nat.div_add_mod'] at bit
    by_contra clearBit
    simp [clearBit] at bit

theorem findSome?_range {A : Type} {f : Nat → Option A} {count : Nat} {a : A}
    (found : (List.range count).findSome? f = some a) :
    ∃ i < count, f i = some a ∧ ∀ j < i, f j = none := by
  induction count with
  | zero => simp at found
  | succ count ih =>
      rw [List.range_succ, List.findSome?_append] at found
      cases earlier : (List.range count).findSome? f with
      | some b =>
          rw [earlier] at found
          obtain ⟨i, inside, rest⟩ := ih (by simpa [earlier] using found)
          exact ⟨i, by omega, rest⟩
      | none =>
          refine ⟨count, by omega, by simpa [earlier] using found, ?_⟩
          intro j less
          exact List.findSome?_eq_none_iff.mp earlier j (List.mem_range.mpr less)

theorem firstClear_some (positive : 0 < w) {words : Words w} {count i : Nat}
    (found : firstClear words count = some i) :
    i < count * w ∧ test words i = false ∧ ∀ j < i, test words j = true := by
  obtain ⟨k, wordInside, inWord, earlierWords⟩ := findSome?_range found
  split at inWord
  next => simp at inWord
  next =>
    obtain ⟨bit, bitInside, here, earlierBits⟩ := findSome?_range inWord
    cases clearBit : test words (k * w + bit) with
    | true => simp [clearBit] at here
    | false =>
      obtain rfl : k * w + bit = i := by simpa [clearBit] using here
      have top : k * w + bit < (k + 1) * w := by
        rw [Nat.add_mul]
        omega
      refine ⟨lt_of_lt_of_le top (Nat.mul_le_mul_right w wordInside), clearBit, ?_⟩
      intro j less
      by_cases sameWord : k * w ≤ j
      · have tested := earlierBits (j - k * w) (by omega)
        rw [Nat.add_sub_cancel' sameWord] at tested
        by_contra clearEarlier
        simp [clearEarlier] at tested
      · apply firstClear_none positive k _ j (by omega)
        exact List.findSome?_eq_none_iff.mpr
          (fun m member => earlierWords m (List.mem_range.mp member))

end Bitmap
