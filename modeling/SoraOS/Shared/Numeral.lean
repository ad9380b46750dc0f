import Mathlib.Data.Nat.Digits.Lemmas

set_option autoImplicit false

/-!
Numerals with the most significant digit first: the value of a list of digits, and the list of
digits of a value.
-/

namespace Numeral

def valueFrom (b start : Nat) (digits : List Nat) : Nat :=
  digits.foldl (fun n digit => n * b + digit) start

def value (b : Nat) (digits : List Nat) : Nat := valueFrom b 0 digits

def numeral (b n : Nat) : List Nat := if n = 0 then [0] else (Nat.digits b n).reverse

/-- No leading zero, but for the numeral of 0 itself. -/
def Plain (digits : List Nat) : Prop := digits ≠ [] ∧ (digits.head? = some 0 → digits = [0])

instance (digits : List Nat) : Decidable (Plain digits) :=
  inferInstanceAs (Decidable (_ ∧ (_ → _)))

theorem valueFrom_eq (b start : Nat) (digits : List Nat) :
    valueFrom b start digits = Nat.ofDigits b (digits.reverse ++ [start]) := by
  induction digits generalizing start with
  | nil => simp [valueFrom]
  | cons digit rest ih =>
      calc valueFrom b start (digit :: rest)
          = Nat.ofDigits b (rest.reverse ++ [start * b + digit]) := ih (start * b + digit)
        _ = Nat.ofDigits b ((digit :: rest).reverse ++ [start]) := by
          simp only [List.reverse_cons, List.append_assoc, Nat.ofDigits_append, List.cons_append,
            List.nil_append, Nat.ofDigits_cons, Nat.ofDigits_nil]
          ring

theorem value_eq (b : Nat) (digits : List Nat) : value b digits = Nat.ofDigits b digits.reverse := by
  rw [value, valueFrom_eq, Nat.ofDigits_append]
  simp

theorem foldl_mod (b m start : Nat) (digits : List Nat) :
    digits.foldl (fun n digit => (n * b + digit) % m) (start % m) =
      valueFrom b start digits % m := by
  induction digits generalizing start with
  | nil => rfl
  | cons digit rest ih =>
      have step : (start % m * b + digit) % m = (start * b + digit) % m := by
        rw [Nat.add_mod, Nat.mod_mul_mod, ← Nat.add_mod]
      rw [List.foldl_cons, step]
      exact ih (start * b + digit)

theorem value_numeral (b n : Nat) : value b (numeral b n) = n := by
  rw [value_eq, numeral]
  split
  next zero => simp [zero]
  next nonzero => rw [List.reverse_reverse, Nat.ofDigits_digits]

theorem numeral_ne_nil (b n : Nat) : numeral b n ≠ [] := by
  rw [numeral]
  split
  next => exact List.cons_ne_nil _ _
  next nonzero => simpa [Nat.digits_ne_nil_iff_ne_zero] using nonzero

theorem plain_numeral (b n : Nat) : Plain (numeral b n) := by
  refine ⟨numeral_ne_nil b n, ?_⟩
  rw [numeral]
  split
  next => exact fun _ => rfl
  next nonzero =>
    intro leading
    -- the leading digit is the last of Mathlib's list, which is not 0
    have nonempty := Nat.digits_ne_nil_iff_ne_zero (b := b).mpr nonzero
    rw [List.head?_reverse, List.getLast?_eq_getLast_of_ne_nil nonempty] at leading
    exact absurd (Option.some.inj leading) (Nat.getLast_digit_ne_zero b nonzero)

theorem lt_of_mem_numeral {b n digit : Nat} (base : 1 < b) (member : digit ∈ numeral b n) :
    digit < b := by
  rw [numeral] at member
  split at member
  next =>
    rw [List.mem_singleton.mp member]
    exact Nat.zero_lt_of_lt base
  next => exact Nat.digits_lt_base base (List.mem_reverse.mp member)

theorem length_numeral_le {b n k : Nat} (base : 1 < b) (positive : 0 < k) (small : n < b ^ k) :
    (numeral b n).length ≤ k := by
  rw [numeral]
  split
  next => exact positive
  next =>
    rw [List.length_reverse]
    exact (Nat.digits_length_le_iff base n).mpr small

theorem numeral_value {b : Nat} (base : 1 < b) {digits : List Nat} (plain : Plain digits)
    (small : ∀ digit ∈ digits, digit < b) : numeral b (value b digits) = digits := by
  obtain ⟨first, rest, rfl⟩ := List.exists_cons_of_ne_nil plain.1
  by_cases zero : first = 0
  · have single : first :: rest = [0] := plain.2 (by simp [zero])
    rw [single]
    simp [value, valueFrom, numeral]
  have last : ∀ nonempty : (first :: rest).reverse ≠ [],
      (first :: rest).reverse.getLast nonempty ≠ 0 := by
    intro nonempty
    rw [List.getLast_reverse]
    exact zero
  have digits := Nat.digits_ofDigits b base (first :: rest).reverse
    (fun digit member => small digit (List.mem_reverse.mp member)) last
  have nonzero : Nat.ofDigits b (first :: rest).reverse ≠ 0 := by
    intro zero
    rw [zero, Nat.digits_zero] at digits
    simp at digits
  rw [value_eq, numeral, if_neg nonzero, digits, List.reverse_reverse]

end Numeral
